import DomainStatus.Lib.Rounds
import Mathlib.Logic.Relation
import Mathlib.Order.Bounds.Basic

/-!
# Fixed points in a bounded number of rounds

A set that grows along a relation, or shrinks by a filter, for a fixed number of rounds. Read
`isLeast_iterate_iff` and `isGreatest_iterate_iff` first: the rounds end at the least or the
greatest fixed point exactly when nothing needs a longer chain of reasons than there are rounds.
-/

namespace Rounds

section Closure

variable {α : Type*} {r : α → α → Prop}

/-- The second point can be reached from the first by at most so many steps of the relation. -/
def ReachedIn (r : α → α → Prop) : ℕ → α → α → Prop
  | 0, x, y => x = y
  | n + 1, x, y => ReachedIn r n x y ∨ ∃ z, ReachedIn r n x z ∧ r z y

/-- What is reached in some steps is reached. -/
theorem ReachedIn.reflTransGen {n : ℕ} {x y : α} (h : ReachedIn r n x y) :
    Relation.ReflTransGen r x y := by
  induction n generalizing y with
  | zero =>
      cases h
      exact .refl
  | succ n ih =>
      rcases h with h | ⟨z, h, hstep⟩
      · exact ih h
      · exact .tail (ih h) hstep

/-- The sets that contain the start and every point that the relation leads to. -/
def closedSets (r : α → α → Prop) (start : Finset α) : Set (Set α) :=
  {points | (∀ x ∈ start, x ∈ points) ∧ ∀ x ∈ points, ∀ y, r x y → y ∈ points}

variable {start : Finset α} {points : Set α}

/-- A closed set that has the start has all that is reached from it. -/
theorem mem_of_reflTransGen (hclosed : points ∈ closedSets r start) {x y : α} (hx : x ∈ start)
    (h : Relation.ReflTransGen r x y) : y ∈ points := by
  induction h with
  | refl => exact hclosed.1 x hx
  | tail _ hstep ih => exact hclosed.2 _ ih _ hstep

variable (start) {step : Finset α → Finset α}
  (hstep : ∀ known y, y ∈ step known ↔ y ∈ known ∨ ∃ x ∈ known, r x y)

include hstep

/-- The rounds find what can be reached in as many steps. -/
theorem mem_iterate_iff (n : ℕ) (y : α) :
    y ∈ step^[n] start ↔ ∃ x ∈ start, ReachedIn r n x y := by
  induction n generalizing y with
  | zero => simp [ReachedIn]
  | succ n ih =>
      rw [Function.iterate_succ_apply', hstep]
      simp only [ih, ReachedIn]
      constructor
      · intro h
        rcases h with ⟨x, hx, h⟩ | ⟨z, ⟨x, hx, h⟩, hzy⟩
        · exact ⟨x, hx, .inl h⟩
        · exact ⟨x, hx, .inr ⟨z, h, hzy⟩⟩
      · intro h
        obtain ⟨x, hx, h | ⟨z, h, hzy⟩⟩ := h
        · exact .inl ⟨x, hx, h⟩
        · exact .inr ⟨z, ⟨x, hx, h⟩, hzy⟩

/-- The rounds end with the least closed set exactly when all that can be reached can be reached in
as many steps. -/
theorem isLeast_iterate_iff (n : ℕ) :
    IsLeast (closedSets r start) {y | y ∈ step^[n] start} ↔
      ∀ y, (∃ x ∈ start, Relation.ReflTransGen r x y) → ∃ x ∈ start, ReachedIn r n x y := by
  have hmem := mem_iterate_iff start hstep n
  constructor
  · intro hleast y hreached
    obtain ⟨x, hx, h⟩ := hreached
    exact (hmem y).mp (mem_of_reflTransGen hleast.1 hx h)
  · intro hall
    refine ⟨⟨fun x hx => ?_, fun x hx y hxy => ?_⟩, fun points hclosed y hy => ?_⟩
    · exact (hmem x).mpr (hall x ⟨x, hx, .refl⟩)
    · obtain ⟨first, hfirst, h⟩ := (hmem x).mp hx
      exact (hmem y).mpr (hall y ⟨first, hfirst, .tail h.reflTransGen hxy⟩)
    · obtain ⟨x, hx, h⟩ := (hmem y).mp hy
      exact mem_of_reflTransGen hclosed hx h.reflTransGen

end Closure

section Support

variable {α : Type*} {keep : Finset α → α → Prop} [∀ s, DecidablePred (keep s)]

/-- The parts of a set whose members all pass the test when only that part is left. -/
def supportedParts (keep : Finset α → α → Prop) (start : Finset α) : Set (Finset α) :=
  {part | part ⊆ start ∧ ∀ x ∈ part, keep part x}

/-- Reasons of so many stages for which members of a set fall: without a stage there is none, and
one stage more says that the test fails on what is left. -/
structure Stages (keep : Finset α → α → Prop) (start : Finset α) (falls : ℕ → α → Prop) : Prop where
  zero : ∀ x, ¬ falls 0 x
  succ : ∀ (n : ℕ) (left : Finset α), (∀ x, x ∈ left ↔ x ∈ start ∧ ¬ falls n x) →
    ∀ x, falls (n + 1) x ↔ ¬ keep left x

variable (hmono : ∀ part whole x, part ⊆ whole → keep part x → keep whole x) {start : Finset α}

include hmono

/-- The rounds drop no member of a supported part. -/
theorem subset_iterate_filterStep {part : Finset α} (hpart : part ∈ supportedParts keep start)
    (n : ℕ) : part ⊆ (filterStep keep)^[n] start := by
  induction n with
  | zero => exact hpart.1
  | succ n ih =>
      rw [Function.iterate_succ_apply']
      intro x hx
      exact Finset.mem_filter.mpr ⟨ih hx, hmono _ _ x ih (hpart.2 x hx)⟩

/-- The rounds end with the greatest supported part exactly when another round would drop
nothing. -/
theorem isGreatest_iterate_iff_fixed (n : ℕ) :
    IsGreatest (supportedParts keep start) ((filterStep keep)^[n] start) ↔
      filterStep keep ((filterStep keep)^[n] start) = (filterStep keep)^[n] start := by
  rw [filterStep, Finset.filter_eq_self]
  constructor
  · intro hgreatest
    exact hgreatest.1.2
  · intro hfixed
    exact ⟨⟨iterate_filterStep_subset n start, hfixed⟩,
      fun part hpart => subset_iterate_filterStep hmono hpart n⟩

variable {falls : ℕ → α → Prop}

/-- The rounds drop what falls for a reason of as many stages. Such a reason is also one of a stage
more. -/
theorem Stages.mem_iterate (hstages : Stages keep start falls) (n : ℕ) :
    (∀ x, x ∈ (filterStep keep)^[n] start ↔ x ∈ start ∧ ¬ falls n x) ∧
      ∀ x, falls n x → falls (n + 1) x := by
  induction n with
  | zero => exact ⟨fun x => by simp [hstages.zero], fun x hx => absurd hx (hstages.zero x)⟩
  | succ n ih =>
      obtain ⟨hmem, hdeeper⟩ := ih
      have hnext : ∀ x, x ∈ (filterStep keep)^[n + 1] start ↔ x ∈ start ∧ ¬ falls (n + 1) x := by
        intro x
        rw [Function.iterate_succ_apply', filterStep, Finset.mem_filter, hmem,
          hstages.succ n _ hmem, not_not]
        constructor
        · intro h
          exact ⟨h.1.1, h.2⟩
        · intro h
          refine ⟨⟨h.1, fun hx => ?_⟩, h.2⟩
          exact (hstages.succ n _ hmem x).mp (hdeeper x hx) h.2
      refine ⟨hnext, fun x hx => ?_⟩
      rw [hstages.succ n _ hmem] at hx
      rw [hstages.succ (n + 1) _ hnext]
      intro hkeep
      -- What is left after another round is a part of what was left before.
      refine hx (hmono _ _ x ?_ hkeep)
      rw [Function.iterate_succ_apply']
      exact filterStep_subset _

/-- What has fallen stays fallen. -/
theorem Stages.mono (hstages : Stages keep start falls) {fewer more : ℕ} (hle : fewer ≤ more)
    {x : α} (hx : falls fewer x) : falls more x := by
  induction hle with
  | refl => exact hx
  | step _ ih => exact (hstages.mem_iterate hmono _).2 x ih

/-- The rounds end with the greatest supported part exactly when everything that falls does so for a
reason of as many stages. -/
theorem isGreatest_iterate_iff (hstages : Stages keep start falls) (n : ℕ) :
    IsGreatest (supportedParts keep start) ((filterStep keep)^[n] start) ↔
      ∀ x ∈ start, (∃ stages, falls stages x) → falls n x := by
  have hmem := fun rounds => (hstages.mem_iterate hmono rounds).1
  rw [isGreatest_iterate_iff_fixed hmono]
  constructor
  · intro hfixed x hx hfalls
    obtain ⟨stages, hfalls⟩ := hfalls
    rcases Nat.le_total stages n with hle | hle
    · exact hstages.mono hmono hle hfalls
    · obtain ⟨extra, rfl⟩ := Nat.exists_eq_add_of_le' hle
      by_contra hnot
      have hleft := (hmem n x).mpr ⟨hx, hnot⟩
      rw [← Function.iterate_fixed hfixed extra, ← Function.iterate_add_apply] at hleft
      exact ((hmem _ x).mp hleft).2 hfalls
  · intro hall
    refine Finset.Subset.antisymm (filterStep_subset _) fun x hx => ?_
    obtain ⟨hstart, hnot⟩ := (hmem n x).mp hx
    rw [← Function.iterate_succ_apply' (filterStep keep) n start, hmem]
    exact ⟨hstart, fun hfalls => hnot (hall x hstart ⟨n + 1, hfalls⟩)⟩

end Support

end Rounds
