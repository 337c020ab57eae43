import Mathlib.Data.List.Nodup
import Mathlib.Data.List.Perm.Basic
import Mathlib.Order.Lattice

/-!
# Sorting by keys

What `ORDER BY` promises: the rows come sorted by their keys, and rows with equal keys in an order
that is left open. Read `sort_congr` first: when different rows have different keys, nothing is
left open.
-/

/-- A way to sort rows by keys. -/
structure Sorter where
  sort : {α β : Type} → [LinearOrder β] → (α → β) → List α → List α
  perm : ∀ {α β : Type} [LinearOrder β] (key : α → β) (rows : List α), (sort key rows).Perm rows
  sorted : ∀ {α β : Type} [LinearOrder β] (key : α → β) (rows : List α),
    (sort key rows).Pairwise fun first second => key first ≤ key second

namespace Sorter

/-- Rows with equal keys stay in their order. -/
def stable : Sorter where
  sort key rows := rows.mergeSort fun first second => decide (key first ≤ key second)
  perm _ rows := List.mergeSort_perm rows _
  sorted key rows := by
    refine (List.pairwise_mergeSort ?_ ?_ rows).imp of_decide_eq_true
    · intro first second third h h'
      exact decide_eq_true (le_trans (of_decide_eq_true h) (of_decide_eq_true h'))
    · intro first second
      simpa using le_total (key first) (key second)

variable {α β : Type} [LinearOrder β] {sorter other : Sorter} {key : α → β} {rows others : List α}

@[simp] theorem mem_sort {row : α} : row ∈ sorter.sort key rows ↔ row ∈ rows :=
  (sorter.perm key rows).mem_iff

/-- Sorted lists of the same rows are equal when different rows have different keys. -/
theorem eq_of_sorted {left right : List α} (hperm : left.Perm right)
    (hkeys : ∀ first ∈ left, ∀ second ∈ left, key first = key second → first = second)
    (hleft : left.Pairwise fun first second => key first ≤ key second)
    (hright : right.Pairwise fun first second => key first ≤ key second) : left = right :=
  hperm.eq_of_pairwise (fun first second hfirst hsecond h h' =>
    hkeys first hfirst second (hperm.mem_iff.mpr hsecond) (le_antisymm h h')) hleft hright

/-- Without ties the order does not depend on the sorter. -/
theorem sort_congr (hperm : rows.Perm others)
    (hkeys : ∀ first ∈ rows, ∀ second ∈ rows, key first = key second → first = second) :
    sorter.sort key rows = other.sort key others := by
  refine eq_of_sorted ?_ (fun first hfirst second hsecond => ?_) (sorter.sorted key rows)
    (other.sorted key others)
  · exact (sorter.perm key rows).trans (hperm.trans (other.perm key others).symm)
  · exact hkeys first (mem_sort.mp hfirst) second (mem_sort.mp hsecond)

/-! ## A limit -/

/-- The rows are sorted in some way, and the first ones are listed. -/
def Listed (key : α → β) (limit : ℕ) (rows listed : List α) : Prop :=
  ∃ sorted : List α, sorted.Perm rows ∧
    (sorted.Pairwise fun first second => key first ≤ key second) ∧ listed = sorted.take limit

/-- What a sorted query with a limit returns. -/
theorem listed_sort (sorter : Sorter) (key : α → β) (limit : ℕ) (rows : List α) :
    Listed key limit rows ((sorter.sort key rows).take limit) :=
  ⟨_, sorter.perm key rows, sorter.sorted key rows, rfl⟩

namespace Listed

variable {limit : ℕ} {listed : List α}

/-- Rows that all fit are listed. -/
theorem perm (h : Listed key limit rows listed) (hfew : rows.length ≤ limit) :
    listed.Perm rows := by
  obtain ⟨sorted, hperm, -, rfl⟩ := h
  rwa [List.take_of_length_le (by rw [hperm.length_eq]; exact hfew)]

/-- Something is listed if there is something. -/
theorem eq_nil_iff (h : Listed key limit rows listed) (hlimit : 0 < limit) :
    listed = [] ↔ rows = [] := by
  obtain ⟨sorted, hperm, -, rfl⟩ := h
  rw [List.take_eq_nil_iff]
  constructor
  · rintro (hzero | hnil)
    · omega
    · exact List.perm_nil.mp (hnil ▸ hperm.symm)
  · rintro rfl
    exact .inr (List.perm_nil.mp hperm)

/-- What is listed is among the rows. -/
theorem subset (h : Listed key limit rows listed) : listed ⊆ rows := by
  obtain ⟨sorted, hperm, -, rfl⟩ := h
  exact fun row hrow => hperm.mem_iff.mp (List.mem_of_mem_take hrow)

/-- Rows that encode some items are listed like the items. -/
theorem exists_items {γ : Type} {encode : γ → α} {items : List γ}
    (h : Listed key limit (items.map encode) listed) :
    ∃ found, listed = found.map encode ∧ Listed (key ∘ encode) limit items found := by
  obtain ⟨sorted, hperm, hpairwise, rfl⟩ := h
  obtain ⟨found, rfl, hfound⟩ : ∃ found : List γ, sorted = found.map encode ∧ found.Perm items := by
    have hcomp := congrFun (congrFun (List.eq_map_comp_perm encode) sorted) items
    exact hcomp.mpr hperm
  rw [List.pairwise_map] at hpairwise
  exact ⟨found.take limit, List.map_take.symm, found, hfound, hpairwise, rfl⟩

end Listed

end Sorter
