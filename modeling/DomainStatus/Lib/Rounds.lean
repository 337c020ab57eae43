import Mathlib.Data.Finset.Lattice.Basic
import Mathlib.Data.Finset.Filter
import Mathlib.Order.Iterate

/-!
# Loops of bounded rounds

A program that works towards a fixed point often bounds the number of rounds and stops early when a
round changes nothing. Read `view_loop` first: what such a loop does to the part of the state that
decides the stop is the plain iteration of one step. `view_forUntil` says the same of a loop over a
list.
-/

namespace Rounds

section Loop

variable {σ α : Type*} (round : σ → σ × Bool)

/-- At most `fuel` rounds. A round reports whether another one is wanted. -/
def loop : ℕ → σ → σ
  | 0, state => state
  | fuel + 1, state => if (round state).2 then loop fuel (round state).1 else (round state).1

/-- What every round preserves, the loop preserves. -/
theorem loop_induction {motive : σ → Prop} {round : σ → σ × Bool}
    (hround : ∀ state, motive state → motive (round state).1) (fuel : ℕ) {state : σ}
    (hstate : motive state) : motive (loop round fuel state) := by
  induction fuel generalizing state with
  | zero => exact hstate
  | succ fuel ih =>
      simp only [loop]
      split
      · exact ih (hround state hstate)
      · exact hround state hstate

/-- The early stop does not show when a round that asks for no other leaves the view unchanged. -/
theorem view_loop (view : σ → α) {step : α → α}
    (hstep : ∀ state, view (round state).1 = step (view state))
    (hstop : ∀ state, (round state).2 = false → step (view state) = view state)
    (fuel : ℕ) (state : σ) : view (loop round fuel state) = step^[fuel] (view state) := by
  induction fuel generalizing state with
  | zero => rfl
  | succ fuel ih =>
      rw [loop, Function.iterate_succ_apply]
      split
      case isTrue => rw [ih, hstep]
      case isFalse hagain =>
        -- The rounds that are skipped would all start from a fixed point.
        have hfix := hstop state (by simpa using hagain)
        rw [hstep, hfix, Function.iterate_fixed hfix]

end Loop

section ForUntil

variable {σ α β : Type*} (body : σ → β → σ × Bool)

/-- A loop over a list that the body can leave. The result tells whether it did. -/
@[grind =] def forUntil : List β → σ → σ × Bool
  | [], state => (state, false)
  | x :: rest, state =>
      if (body state x).2 then ((body state x).1, true) else forUntil rest (body state x).1

/-- What holds whenever the body leaves the loop holds when the loop was left. -/
theorem forUntil_left {body : σ → β → σ × Bool} {motive : σ → Prop}
    (hleave : ∀ state x, (body state x).2 → motive (body state x).1) (xs : List β) {state : σ}
    (hleft : (forUntil body xs state).2) : motive (forUntil body xs state).1 := by
  induction xs generalizing state with
  | nil => simp [forUntil] at hleft
  | cons x rest ih =>
      rw [forUntil] at hleft ⊢
      split
      case isTrue hx => exact hleave state x hx
      case isFalse hx =>
        rw [if_neg hx] at hleft
        exact ih hleft

/-- A loop over images. -/
theorem forUntil_map {γ : Type*} (f : γ → β) (xs : List γ) (state : σ) :
    forUntil body (xs.map f) state = forUntil (fun state x => body state (f x)) xs state := by
  induction xs generalizing state with
  | nil => rfl
  | cons x rest ih => simp only [List.map_cons, forUntil, ih]

/-- Elements that the body passes over can be left out. -/
theorem forUntil_filter (p : β → Bool) (xs : List β) (state : σ) :
    forUntil (fun state x => if p x then body state x else (state, false)) xs state =
      forUntil body (xs.filter p) state := by
  induction xs generalizing state with
  | nil => rfl
  | cons x rest ih =>
      by_cases hx : p x
      · simp only [forUntil, hx, if_true, List.filter_cons_of_pos, ih]
      · simp [forUntil, hx, ih]

/-- Leaving the loop does not show when nothing that follows would change the view. -/
theorem view_forUntil {body : σ → β → σ × Bool} (inv : σ → Prop) (view : σ → α) {step : α → β → α}
    (hinv : ∀ state x, inv state → inv (body state x).1)
    (hstep : ∀ state x, inv state → view (body state x).1 = step (view state) x)
    (hstop : ∀ state x, inv state → (body state x).2 → ∀ y,
      step (view (body state x).1) y = view (body state x).1)
    (xs : List β) {state : σ} (hstate : inv state) :
    inv (forUntil body xs state).1 ∧
      view (forUntil body xs state).1 = xs.foldl step (view state) := by
  induction xs generalizing state with
  | nil => exact ⟨hstate, rfl⟩
  | cons x rest ih =>
      rw [forUntil, List.foldl_cons, ← hstep state x hstate]
      split
      case isTrue hleave =>
        refine ⟨hinv state x hstate, ?_⟩
        -- The elements that are skipped would leave the view as it is.
        exact (List.foldl_fixed' (hstop state x hstate hleave) rest).symm
      case isFalse => exact ih (hinv state x hstate)

end ForUntil

section Finset

variable {α : Type*} [DecidableEq α]

/-- A step that treats the parts of a set separately does so over every number of rounds. -/
theorem iterate_union {step : Finset α → Finset α}
    (hunion : ∀ left right, step (left ∪ right) = step left ∪ step right) (n : ℕ)
    (left right : Finset α) :
    step^[n] (left ∪ right) = step^[n] left ∪ step^[n] right := by
  induction n generalizing left right with
  | zero => rfl
  | succ n ih => simp only [Function.iterate_succ_apply, hunion, ih]

/-- A step that treats the parts of a set separately is monotone. -/
theorem monotone_of_union {step : Finset α → Finset α}
    (hunion : ∀ left right, step (left ∪ right) = step left ∪ step right) : Monotone step := by
  intro left right hle
  have hright : left ∪ right = right := Finset.union_eq_right.mpr hle
  calc step left ⊆ step left ∪ step right := Finset.subset_union_left
    _ = step right := by rw [← hunion, hright]

omit [DecidableEq α]

variable {keep : Finset α → α → Prop} [∀ s, DecidablePred (keep s)]

/-- One round of a filter whose test looks at the set that is left. -/
def filterStep (keep : Finset α → α → Prop) [∀ s, DecidablePred (keep s)] (s : Finset α) :
    Finset α :=
  s.filter (keep s)

/-- A round only removes. -/
theorem filterStep_subset (s : Finset α) : filterStep keep s ⊆ s :=
  Finset.filter_subset _ _

/-- Rounds only remove. -/
theorem iterate_filterStep_subset (n : ℕ) (s : Finset α) : (filterStep keep)^[n] s ⊆ s :=
  Function.iterate_le_id_of_le_id (fun s => filterStep_subset s) n s

/-- The rounds can be watched through a part of the set when the test of its members does not
depend on what lies outside of it. -/
theorem iterate_filterStep_inter [DecidableEq α] {top part : Finset α}
    (hkeep : ∀ s ⊆ top, ∀ x ∈ s ∩ part, keep s x ↔ keep (s ∩ part) x) (n : ℕ) {s : Finset α}
    (hs : s ⊆ top) :
    (filterStep keep)^[n] s ∩ part = (filterStep keep)^[n] (s ∩ part) := by
  induction n generalizing s with
  | zero => rfl
  | succ n ih =>
      have hround : filterStep keep s ∩ part = filterStep keep (s ∩ part) := by
        ext x
        simp only [filterStep, Finset.mem_inter, Finset.mem_filter]
        constructor
        · intro h
          obtain ⟨⟨hx, hkeepx⟩, hpart⟩ := h
          exact ⟨⟨hx, hpart⟩, (hkeep s hs x (Finset.mem_inter.mpr ⟨hx, hpart⟩)).mp hkeepx⟩
        · intro h
          obtain ⟨⟨hx, hpart⟩, hkeepx⟩ := h
          exact ⟨⟨hx, (hkeep s hs x (Finset.mem_inter.mpr ⟨hx, hpart⟩)).mpr hkeepx⟩, hpart⟩
      rw [Function.iterate_succ_apply, Function.iterate_succ_apply,
        ih ((filterStep_subset s).trans hs), hround]

end Finset

end Rounds
