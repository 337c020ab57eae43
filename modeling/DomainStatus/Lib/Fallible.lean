import Mathlib.Data.List.Forall2
import Mathlib.Tactic.Common

/-!
# Computations that may fail

What the success of a computation in `Except` says about its steps, and when a computation that is
mapped over a list succeeds.
-/

namespace Except

variable {ε : Type} {α β : Type}

/-- A sequence succeeds if both of its parts do. -/
@[simp] theorem bind_eq_ok {first : Except ε α} {next : α → Except ε β} {result : β} :
    first >>= next = .ok result ↔ ∃ value, first = .ok value ∧ next value = .ok result := by
  cases first <;> simp [bind, Except.bind]

@[simp] theorem pure_eq_ok {value result : α} :
    (pure value : Except ε α) = .ok result ↔ value = result := by
  simp [pure, Except.pure]

@[simp] theorem throw_ne_ok {error : ε} {result : α} : (throw error : Except ε α) ≠ .ok result := by
  simp [throw, throwThe, MonadExceptOf.throw]

/-- A check that fails ends the computation. -/
@[simp] theorem guard_eq_ok {p : Prop} [Decidable p] {error : ε} {next : PUnit → Except ε α}
    {rest : Except ε α} {result : α} :
    (if p then throw error >>= next else rest) = .ok result ↔ ¬ p ∧ rest = .ok result := by
  by_cases hp : p <;> simp [hp]

end Except

namespace List

variable {α β γ : Type} {P : α → β → Prop} {items : List α} {results : List β}

/-- A computation that succeeds for each item succeeds for all of them. -/
theorem exists_mapM_eq_some {f : α → Option β}
    (h : ∀ item ∈ items, ∃ result, f item = some result ∧ P item result) :
    ∃ results, items.mapM f = some results ∧ Forall₂ P items results := by
  induction items with
  | nil => exact ⟨[], rfl, Forall₂.nil⟩
  | cons item rest ih =>
      obtain ⟨result, hresult, hitem⟩ := h item mem_cons_self
      obtain ⟨results, hresults, hrest⟩ := ih fun other hother => h other (mem_cons_of_mem _ hother)
      exact ⟨result :: results, by rw [mapM_cons, hresult, hresults]; rfl, Forall₂.cons hitem hrest⟩

/-- A computation that never fails is a map. -/
theorem mapM_eq_some_map {f : α → Option β} {g : α → β}
    (h : ∀ item ∈ items, f item = some (g item)) : items.mapM f = some (items.map g) := by
  induction items with
  | nil => rfl
  | cons item rest ih =>
      rw [mapM_cons, h item mem_cons_self,
        ih fun other hother => h other (mem_cons_of_mem _ hother)]
      rfl

/-- The results of a computation that succeeds for all items. -/
theorem mapM_eq_some_iff {f : α → Option β} :
    items.mapM f = some results ↔
      Forall₂ (fun item result => f item = some result) items results := by
  induction items generalizing results with
  | nil => simp [eq_comm]
  | cons item rest ih =>
      rw [mapM_cons, forall₂_cons_left_iff]
      cases hitem : f item with
      | none => simp
      | some result =>
          cases hrest : rest.mapM f with
          | none => simp [← ih, hrest]
          | some others => simp [← ih, hrest, eq_comm]

/-- Each result belongs to an item. -/
theorem Forall₂.exists_left (h : Forall₂ P items results) {result : β} (hmem : result ∈ results) :
    ∃ item ∈ items, P item result := by
  induction h with
  | nil => cases hmem
  | @cons item first items results hitem _ ih =>
      rcases mem_cons.mp hmem with rfl | hmem
      · exact ⟨item, mem_cons_self, hitem⟩
      · obtain ⟨other, hother, hP⟩ := ih hmem
        exact ⟨other, mem_cons_of_mem _ hother, hP⟩

/-- Each item has a result. -/
theorem Forall₂.exists_right (h : Forall₂ P items results) {item : α} (hmem : item ∈ items) :
    ∃ result ∈ results, P item result :=
  Forall₂.exists_left h.flip hmem

/-- A computation fails for some items when it fails for one of them. -/
theorem mapM_eq_none_iff {f : α → Option β} :
    items.mapM f = none ↔ ∃ item ∈ items, f item = none := by
  constructor
  · intro h
    by_contra hall
    have hitems : ∀ item ∈ items, ∃ result, f item = some result ∧ True := by
      intro item hitem
      obtain ⟨result, hresult⟩ :=
        Option.ne_none_iff_exists'.mp fun hnone => hall ⟨item, hitem, hnone⟩
      exact ⟨result, hresult, trivial⟩
    obtain ⟨results, hresults, -⟩ := exists_mapM_eq_some hitems
    rw [h] at hresults
    cases hresults
  · rintro ⟨item, hitem, hnone⟩
    cases hresults : items.mapM f with
    | none => rfl
    | some results =>
        obtain ⟨result, -, hresult⟩ := (mapM_eq_some_iff.mp hresults).exists_right hitem
        rw [hnone] at hresult
        cases hresult

/-- The results of the items that are kept are those that are kept of the results. -/
theorem mapM_filter {f : α → Option β} {keepItem : α → Bool} {keepResult : β → Bool}
    (h : items.mapM f = some results)
    (hkeep : ∀ item result, f item = some result → keepItem item = keepResult result) :
    (items.filter keepItem).mapM f = some (results.filter keepResult) := by
  rw [mapM_eq_some_iff] at h ⊢
  induction h with
  | nil => exact Forall₂.nil
  | @cons item result _ _ hitem _ ih =>
      rw [filter_cons, filter_cons, hkeep item result hitem]
      cases keepResult result with
      | false => exact ih
      | true => exact Forall₂.cons hitem ih

/-- What related items agree on. -/
theorem Forall₂.map_eq (h : Forall₂ P items results) {left : α → γ} {right : β → γ}
    (hP : ∀ item result, P item result → left item = right result) :
    items.map left = results.map right := by
  rw [← forall₂_eq_eq_eq, forall₂_map_left_iff, forall₂_map_right_iff]
  exact h.imp hP

/-- Related items have the same parts. -/
theorem Forall₂.flatMap_perm (h : Forall₂ P items results) {left : α → List γ} {right : β → List γ}
    (hP : ∀ item result, P item result → (left item).Perm (right result)) :
    (items.flatMap left).Perm (results.flatMap right) := by
  induction h with
  | nil => exact Perm.refl _
  | cons hitem _ ih => exact (hP _ _ hitem).append ih

end List
