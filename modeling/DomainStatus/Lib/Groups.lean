import DomainStatus.Lib.Distinct
import DomainStatus.Lib.Sorter
import Mathlib.Algebra.BigOperators.Group.List.Basic
import Mathlib.Algebra.GroupWithZero.Nat
import Mathlib.Data.Multiset.Bind
import Mathlib.Data.Prod.Lex
import Mathlib.Order.OrderDual

/-!
# Counting by keys

What `GROUP BY` with `COUNT(*)` gives, and the most frequent keys of some rows. Read `ranked_congr`
first: only how often each key occurs matters.
-/

namespace Groups

variable {α β κ : Type} [DecidableEq κ] {key : α → κ} {rows : List α}

/-- The keys of some rows, each with the number of its rows. -/
def counts (key : α → κ) (rows : List α) : List (κ × ℕ) :=
  (rows.map key).eraseDups.map fun k => (k, rows.countP (key · = k))

/-- The rows of a key are counted by the key. -/
theorem countP_eq_count (k : κ) : rows.countP (key · = k) = (rows.map key).count k := by
  rw [List.count, List.countP_map]
  rfl

/-- Each key that occurs is counted. -/
theorem mem_counts {group : κ × ℕ} :
    group ∈ counts key rows ↔ group.2 = rows.countP (key · = group.1) ∧ 0 < group.2 := by
  obtain ⟨k, count⟩ := group
  simp only [counts, List.mem_map, List.mem_eraseDups, Prod.mk.injEq]
  constructor
  · rintro ⟨other, ⟨row, hrow, rfl⟩, rfl, rfl⟩
    exact ⟨rfl, List.countP_pos_iff.mpr ⟨row, hrow, decide_eq_true rfl⟩⟩
  · rintro ⟨hcount, hpos⟩
    rw [hcount] at hpos
    obtain ⟨row, hrow, hkey⟩ := List.countP_pos_iff.mp hpos
    exact ⟨k, ⟨row, hrow, of_decide_eq_true hkey⟩, rfl, hcount.symm⟩

/-- Each key has one group. -/
theorem nodup_counts (key : α → κ) (rows : List α) : ((counts key rows).map Prod.fst).Nodup := by
  rw [counts, List.map_map]
  exact (List.map_id _).symm ▸ Distinct.nodup_eraseDups _

/-- The groups depend on the keys alone, in any order. -/
theorem counts_perm {other : β → κ} {others : List β}
    (h : (rows.map key).Perm (others.map other)) :
    (counts key rows).Perm (counts other others) := by
  refine (List.perm_ext_iff_of_nodup ?_ ?_).mpr fun group => ?_
  · exact List.Nodup.of_map Prod.fst (nodup_counts key rows)
  · exact List.Nodup.of_map Prod.fst (nodup_counts other others)
  · rw [mem_counts, mem_counts, countP_eq_count, countP_eq_count, h.count_eq]

section Ranked

variable [LinearOrder κ]

/-- `ORDER BY COUNT(*) DESC`, and then by the key. -/
def ranked (sorter : Sorter) (key : α → κ) (rows : List α) : List (κ × ℕ) :=
  sorter.sort (fun group => toLex (OrderDual.toDual group.2, group.1)) (counts key rows)

/-- Groups are in one order only, which depends on the keys alone. -/
theorem ranked_congr {sorter second : Sorter} {other : β → κ} {others : List β}
    (h : (rows.map key).Perm (others.map other)) :
    ranked sorter key rows = ranked second other others := by
  refine Sorter.sort_congr (counts_perm h) fun first _ next _ hsame => ?_
  rw [toLex_inj, Prod.mk.injEq, OrderDual.toDual_inj] at hsame
  exact Prod.ext hsame.2 hsame.1

end Ranked

/-! ## Joins -/

section Joins

/-- `INNER JOIN`: the pairs of rows that belong together. -/
def join (p : α → β → Bool) (rows : List α) (others : List β) : List (α × β) :=
  rows.flatMap fun row => (others.filter (p row)).map fun other => (row, other)

variable {p : α → β → Bool} {others : List β}

/-- A join has the pairs that the condition admits. -/
theorem mem_join {pair : α × β} :
    pair ∈ join p rows others ↔ pair.1 ∈ rows ∧ pair.2 ∈ others ∧ p pair.1 pair.2 = true := by
  obtain ⟨row, other⟩ := pair
  simp [join]

/-- A filter in front of a map, row by row. -/
theorem filter_map_eq_flatMap {γ : Type} (keep : α → Bool) (f : α → γ) (rows : List α) :
    (rows.filter keep).map f = rows.flatMap fun row => if keep row then [f row] else [] := by
  induction rows with
  | nil => rfl
  | cons row rest ih => cases hkeep : keep row <;> simp [hkeep, ih]

/-- It does not matter which rows are looked at first. -/
theorem join_perm : (join p rows others).Perm
    (others.flatMap fun other => (rows.filter (p · other)).map fun row => (row, other)) := by
  simp only [join, filter_map_eq_flatMap]
  rw [← Multiset.coe_eq_coe, ← Multiset.coe_bind, ← Multiset.coe_bind]
  simp only [← Multiset.coe_bind]
  exact Multiset.bind_bind _ _

/-- What is counted with `DISTINCT`: the rows that some row belongs to. -/
theorem length_distinct_join {key : β → κ} (hkey : (others.map key).Nodup) :
    ((join p rows others).map fun pair => key pair.2).eraseDups.length =
      others.countP fun other => rows.any (p · other) := by
  have hnodup : ((others.filter fun other => rows.any (p · other)).map key).Nodup :=
    (List.filter_sublist.map key).nodup hkey
  have hperm : ((join p rows others).map fun pair => key pair.2).eraseDups.Perm
      ((others.filter fun other => rows.any (p · other)).map key) := by
    refine (List.perm_ext_iff_of_nodup (Distinct.nodup_eraseDups _) hnodup).mpr fun k => ?_
    simp only [List.mem_eraseDups, List.mem_map, mem_join, List.mem_filter, List.any_eq_true]
    constructor
    · rintro ⟨⟨row, other⟩, ⟨hrow, hother, hp⟩, rfl⟩
      exact ⟨other, ⟨hother, row, hrow, hp⟩, rfl⟩
    · rintro ⟨other, ⟨hother, row, hrow, hp⟩, rfl⟩
      exact ⟨(row, other), ⟨hrow, hother, hp⟩, rfl⟩
  rw [hperm.length_eq, List.length_map, List.countP_eq_length_filter]

end Joins

end Groups
