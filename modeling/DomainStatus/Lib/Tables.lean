import DomainStatus.Lib.Distinct
import Mathlib.Data.List.Induction
import Mathlib.Data.List.Nodup
import Mathlib.Data.Nat.Notation

/-!
# Tables of a relational database

Rows with an automatic number that belong to a row of another table, and insertions with a clause
for rows whose unique key is taken. `OnConflict.merge` says what an insertion does to the values of
one parent. Read `insert_valuesOf` and `insert_valuesOf_ne` first: an insertion merges the value
into those of its parent and leaves the others alone. `joined_insert` is the same for a table whose
rows belong to keyed rows and are read through these keys.
-/

/-- What an insertion does with a row whose unique key is taken. A key with a `NULL` in it is never
taken. -/
inductive OnConflict (α κ : Type) where
  | unchecked
  | doNothing (key : α → Option κ)
  | doUpdate (key : α → Option κ)

namespace OnConflict

variable {α κ : Type} [DecidableEq κ]

/-- The two values may not stand side by side. -/
def clash : OnConflict α κ → α → α → Bool
  | unchecked, _, _ => false
  | doNothing key, old, new | doUpdate key, old, new => (key old).isSome && key old == key new

/-- What becomes of a value when another one clashes with it. -/
def resolve : OnConflict α κ → α → α → α
  | doUpdate _, _, new => new
  | _, old, _ => old

/-- The values after an insertion. -/
def merge (conflict : OnConflict α κ) (values : List α) (new : α) : List α :=
  if values.any (conflict.clash · new) then
    values.map fun old => if conflict.clash old new then conflict.resolve old new else old
  else values ++ [new]

/-- The values that some insertions make. -/
def mergeAll (conflict : OnConflict α κ) (values : List α) : List α :=
  values.foldl conflict.merge []

variable {conflict : OnConflict α κ}

@[simp] theorem clash_doUpdate (key : α → κ) (old new : α) :
    (doUpdate fun value => some (key value)).clash old new = decide (key old = key new) := by
  by_cases h : key old = key new <;> simp [clash, h]

/-- After an INSERT a value is an old one or the new one. -/
theorem mem_of_mem_merge {values : List α} {new value : α} (h : value ∈ conflict.merge values new) :
    value ∈ values ∨ value = new := by
  unfold merge at h
  split at h
  · obtain ⟨old, hold, rfl⟩ := List.mem_map.mp h
    split
    · cases conflict with
      | doUpdate key => exact .inr rfl
      | unchecked | doNothing key => exact .inl hold
    · exact .inl hold
  · simpa using h

/-- After an INSERT there is a value. -/
theorem merge_ne_nil (values : List α) (new : α) : conflict.merge values new ≠ [] := by
  unfold merge
  split
  case isTrue hclash =>
    obtain ⟨old, hold, -⟩ := List.any_eq_true.mp hclash
    simpa using List.ne_nil_of_mem hold
  case isFalse => simp

/-- Values only come from the insertions. -/
theorem mem_of_mem_foldl_merge {values news : List α} {value : α}
    (h : value ∈ news.foldl conflict.merge values) : value ∈ values ∨ value ∈ news := by
  induction news generalizing values with
  | nil => exact .inl h
  | cons new rest ih =>
      rcases ih h with h | h
      · rcases mem_of_mem_merge h with h | rfl
        · exact .inl h
        · exact .inr List.mem_cons_self
      · exact .inr (List.mem_cons_of_mem _ h)

/-- What is stored was inserted. -/
theorem mem_of_mem_mergeAll {values : List α} {value : α} (h : value ∈ conflict.mergeAll values) :
    value ∈ values :=
  (mem_of_mem_foldl_merge h).resolve_left List.not_mem_nil

/-- Only without old and new values there are none. -/
theorem foldl_merge_eq_nil {values news : List α} :
    news.foldl conflict.merge values = [] ↔ values = [] ∧ news = [] := by
  induction news generalizing values with
  | nil => simp
  | cons new rest ih => simp [ih, merge_ne_nil]

/-- Only without values nothing is stored. -/
theorem mergeAll_eq_nil {values : List α} : conflict.mergeAll values = [] ↔ values = [] := by
  simp [mergeAll, foldl_merge_eq_nil]

/-- When the key tells the values apart, none of them gets lost. -/
theorem mem_mergeAll_doNothing {key : α → Option κ} {values : List α}
    (hkey : ∀ old ∈ values, ∀ new ∈ values, key old = key new → old = new) {value : α} :
    value ∈ (doNothing key).mergeAll values ↔ value ∈ values := by
  suffices h : ∀ done rest : List α, (∀ old ∈ done ++ rest, ∀ new ∈ done ++ rest,
      key old = key new → old = new) →
      (value ∈ rest.foldl (doNothing key).merge done ↔ value ∈ done ∨ value ∈ rest) by
    simpa [mergeAll] using h [] values (by simpa using hkey)
  intro done rest
  induction rest generalizing done with
  | nil => simp
  | cons new rest ih =>
      intro hkey
      rw [List.foldl_cons]
      by_cases hclash : done.any ((doNothing key).clash · new) = true
      · obtain ⟨old, hold, hsame⟩ := List.any_eq_true.mp hclash
        simp only [clash, Bool.and_eq_true, beq_iff_eq] at hsame
        -- The value is there already.
        have hnew : old = new := hkey old (by simp [hold]) new (by simp) hsame.2
        have hmerge : (doNothing key).merge done new = done := by
          rw [merge, if_pos hclash]
          simp [resolve]
        rw [hmerge, ih done fun a ha b hb => hkey a (by grind) b (by grind)]
        grind
      · have hmerge : (doNothing key).merge done new = done ++ [new] := by
          rw [merge, if_neg hclash]
        rw [hmerge, ih (done ++ [new]) fun a ha b hb =>
          hkey a (by simpa using ha) b (by simpa using hb)]
        simp [or_assoc]

/-- Updates keep the keys apart. -/
theorem nodup_doUpdate {key : α → κ} {values : List α} (h : (values.map key).Nodup) (new : α) :
    (((doUpdate fun value => some (key value)).merge values new).map key).Nodup := by
  unfold merge
  split
  case isTrue hclash =>
    have hkeys : (values.map fun old =>
        if (doUpdate fun value => some (key value)).clash old new then
          (doUpdate fun value => some (key value)).resolve old new
        else old).map key = values.map key := by
      rw [List.map_map]
      refine List.map_congr_left fun old _ => ?_
      by_cases hold : key old = key new <;> simp [resolve, hold]
    rwa [hkeys]
  case isFalse hclash =>
    simp only [List.any_eq_true, not_exists, not_and, clash_doUpdate, decide_eq_true_eq] at hclash
    rw [List.map_append, List.map_singleton]
    refine List.Nodup.append h (List.nodup_singleton _) ?_
    intro k hk hnew
    obtain ⟨old, hold, rfl⟩ := List.mem_map.mp hk
    exact hclash old hold (by simpa using hnew)

section Encode

variable {β : Type} {encode : β → α}

/-- The clause for values before they are encoded. -/
def comap (encode : β → α) : OnConflict α κ → OnConflict β κ
  | unchecked => unchecked
  | doNothing key => doNothing (key ∘ encode)
  | doUpdate key => doUpdate (key ∘ encode)

/-- Encoded values clash as their codes do. -/
theorem merge_map (values : List β) (new : β) :
    conflict.merge (values.map encode) (encode new) =
      ((conflict.comap encode).merge values new).map encode := by
  have hclash : ∀ old, conflict.clash (encode old) (encode new) =
      (conflict.comap encode).clash old new := fun old => by cases conflict <;> rfl
  have hresolve : ∀ old, conflict.resolve (encode old) (encode new) =
      encode ((conflict.comap encode).resolve old new) := fun old => by cases conflict <;> rfl
  unfold merge
  rw [List.any_map]
  simp only [Function.comp_def, hclash]
  split
  · rw [List.map_map, List.map_map]
    refine List.map_congr_left fun old _ => ?_
    simp only [Function.comp_apply, hclash, hresolve]
    exact (apply_ite encode _ _ _).symm
  · rw [List.map_append, List.map_singleton]

/-- Encoded values are merged like the values. -/
theorem mergeAll_map (values : List β) :
    conflict.mergeAll (values.map encode) =
      ((conflict.comap encode).mergeAll values).map encode := by
  suffices h : ∀ start : List β, (values.map encode).foldl conflict.merge (start.map encode) =
      (values.foldl (conflict.comap encode).merge start).map encode from h []
  intro start
  induction values generalizing start with
  | nil => rfl
  | cons value rest ih =>
      rw [List.map_cons, List.foldl_cons, merge_map, ih, List.foldl_cons]

end Encode

/-- Values with different keys are all kept. -/
theorem mergeAll_eq_self {values : List α}
    (h : values.Pairwise fun old new => conflict.clash old new = false) :
    conflict.mergeAll values = values := by
  induction values using List.reverseRecOn with
  | nil => rfl
  | append_singleton values new ih =>
      obtain ⟨hvalues, -, hnew⟩ := List.pairwise_append.mp h
      have hfree : values.any (conflict.clash · new) = false := by
        rw [List.any_eq_false]
        intro old hold
        rw [hnew old hold new (List.mem_singleton_self new)]
        exact Bool.false_ne_true
      rw [mergeAll, List.foldl_append, ← mergeAll, ih hvalues, List.foldl_cons, List.foldl_nil,
        merge, hfree]
      rfl

/-- When the key tells all values apart, the distinct ones are kept. -/
theorem mergeAll_doNothing [BEq α] [LawfulBEq α] {key : α → Option κ}
    (hsome : ∀ value, (key value).isSome = true) (hkey : Function.Injective key)
    (values : List α) : (doNothing key).mergeAll values = values.eraseDups := by
  have hclash : ∀ old new, (doNothing key).clash old new = true ↔ old = new := by
    intro old new
    simp [clash, hsome, hkey.eq_iff]
  induction values using List.reverseRecOn with
  | nil => rfl
  | append_singleton values new ih =>
      rw [Distinct.eraseDups_concat, mergeAll, List.foldl_append, ← mergeAll, ih, List.foldl_cons,
        List.foldl_nil, merge]
      by_cases hmem : new ∈ values
      · have hany : values.eraseDups.any ((doNothing key).clash · new) = true :=
          List.any_eq_true.mpr ⟨new, List.mem_eraseDups.mpr hmem, (hclash new new).mpr rfl⟩
        rw [if_pos hmem, if_pos hany]
        simp [resolve]
      · have hany : ¬ values.eraseDups.any ((doNothing key).clash · new) = true := by
          rw [List.any_eq_true]
          rintro ⟨old, hold, hsame⟩
          exact hmem ((hclash old new).mp hsame ▸ List.mem_eraseDups.mp hold)
        rw [if_neg hmem, if_neg hany]

/-- One value for each key, the last one that there is. -/
def lastOf (key : α → κ) (values : List α) : List α :=
  (doUpdate fun value => some (key value)).mergeAll values

/-- One more value is merged into the last ones. -/
theorem lastOf_concat (key : α → κ) (values : List α) (new : α) :
    lastOf key (values ++ [new]) =
      (doUpdate fun value => some (key value)).merge (lastOf key values) new :=
  List.foldl_concat ..

/-- Each key has one value. -/
theorem nodup_lastOf (key : α → κ) (values : List α) : ((lastOf key values).map key).Nodup := by
  induction values using List.reverseRecOn with
  | nil => exact List.nodup_nil
  | append_singleton values new ih =>
      rw [lastOf_concat]
      exact nodup_doUpdate ih new

/-- Values with different keys are all kept. -/
theorem lastOf_eq_self {key : α → κ} {values : List α} (h : (values.map key).Nodup) :
    lastOf key values = values := by
  refine mergeAll_eq_self ((List.pairwise_map.mp h).imp fun {old new} hne => ?_)
  rw [clash_doUpdate, decide_eq_false_iff_not]
  exact hne

/-- What stands for a key after an update. -/
theorem find_merge_doUpdate (key : α → κ) (values : List α) (new : α) (k : κ) :
    ((doUpdate fun value => some (key value)).merge values new).find? (key · = k) =
      if key new = k then some new else values.find? (key · = k) := by
  unfold merge
  split
  case isTrue hclash =>
    simp only [List.any_eq_true, clash_doUpdate, decide_eq_true_eq] at hclash
    obtain ⟨old, hold, hsame⟩ := hclash
    have hkeys : ∀ value, key (if key value = key new then new else value) = key value := by
      intro value
      split
      case isTrue h => exact h.symm
      case isFalse => rfl
    simp only [clash_doUpdate, decide_eq_true_eq, resolve, List.find?_map, Function.comp_def, hkeys]
    cases hfind : values.find? (key · = k) with
    | none =>
        rw [List.find?_eq_none] at hfind
        have hnew : key new ≠ k := fun h => hfind old hold (decide_eq_true (hsame.trans h))
        rw [Option.map_none, if_neg hnew]
    | some found =>
        have hfound : key found = k := by simpa using List.find?_some hfind
        by_cases hnew : key new = k
        · rw [Option.map_some, if_pos (hfound.trans hnew.symm), if_pos hnew]
        · rw [Option.map_some, if_neg fun h => hnew (h.symm.trans hfound), if_neg hnew]
  case isFalse hclash =>
    simp only [List.any_eq_true, not_exists, not_and, clash_doUpdate, decide_eq_true_eq] at hclash
    rw [List.find?_append, List.find?_singleton]
    by_cases hnew : key new = k
    · have hnone : values.find? (key · = k) = none := by
        rw [List.find?_eq_none]
        intro old hold hkey
        exact hclash old hold ((of_decide_eq_true hkey).trans hnew.symm)
      simp [hnone, hnew]
    · simp [hnew]

/-- For each key the last of its values is kept. -/
theorem find_lastOf (key : α → κ) (values : List α) (k : κ) :
    (lastOf key values).find? (key · = k) = (values.filter (key · = k)).getLast? := by
  induction values using List.reverseRecOn with
  | nil => rfl
  | append_singleton values new ih =>
      rw [lastOf_concat, find_merge_doUpdate, List.filter_append]
      by_cases hnew : key new = k
      · simp [hnew]
      · simpa [hnew] using ih

/-- A key with a value keeps one. -/
theorem exists_mem_lastOf (key : α → κ) {values : List α} {value : α} (h : value ∈ values) :
    ∃ kept ∈ lastOf key values, key kept = key value := by
  have hfind := find_lastOf key values (key value)
  have hsome : ((values.filter (key · = key value)).getLast?).isSome = true := by
    rw [List.getLast?_isSome]
    exact List.ne_nil_of_mem (List.mem_filter.mpr ⟨h, decide_eq_true rfl⟩)
  rw [← hfind] at hsome
  obtain ⟨kept, hkept⟩ := Option.isSome_iff_exists.mp hsome
  exact ⟨kept, List.mem_of_find?_eq_some hkept, by simpa using List.find?_some hkept⟩

/-- Only what keys are equal matters. -/
theorem lastOf_congr {μ : Type} [DecidableEq μ] {key : α → κ} {other : α → μ}
    (h : ∀ old new, key old = key new ↔ other old = other new) (values : List α) :
    lastOf key values = lastOf other values := by
  induction values using List.reverseRecOn with
  | nil => rfl
  | append_singleton values new ih =>
      rw [lastOf_concat, lastOf_concat, ih]
      simp only [merge, clash_doUpdate, h]
      rfl

end OnConflict

/-- A row with its number and the number of the row it belongs to. -/
structure Row (α : Type) where
  id : ℕ
  parent : ℕ
  value : α

/-- The rows of a table. No number is given to two rows, also after the first was deleted. -/
@[ext]
structure Table (α : Type) where
  rows : List (Row α)
  nextId : ℕ
  id_lt : ∀ row ∈ rows, row.id < nextId
  nodup : (rows.map Row.id).Nodup

namespace Table

variable {α κ : Type} [DecidableEq κ]

instance : EmptyCollection (Table α) where
  emptyCollection := { rows := [], nextId := 1, id_lt := nofun, nodup := List.nodup_nil }

/-- The values of the rows of a parent. -/
def valuesOf (table : Table α) (parent : ℕ) : List α :=
  (table.rows.filter (·.parent = parent)).map Row.value

/-- There is a row with the number. -/
def hasId (table : Table α) (id : ℕ) : Bool :=
  table.rows.any (·.id = id)

/-- Changes values in place. -/
def mapValues (table : Table α) (change : Row α → α) : Table α where
  rows := table.rows.map fun row => { row with value := change row }
  nextId := table.nextId
  id_lt := by simpa using table.id_lt
  nodup := by simpa [Function.comp_def] using table.nodup

/-- Adds a row with the next number. -/
def push (table : Table α) (parent : ℕ) (value : α) : Table α where
  rows := table.rows ++ [{ id := table.nextId, parent := parent, value := value }]
  nextId := table.nextId + 1
  id_lt := by
    intro row hrow
    rcases List.mem_append.mp hrow with hrow | hrow
    · exact Nat.lt_succ_of_lt (table.id_lt row hrow)
    · rw [List.mem_singleton.mp hrow]
      exact Nat.lt_succ_self _
  nodup := by
    rw [List.map_append, List.map_singleton]
    refine List.Nodup.append table.nodup (List.nodup_singleton _) ?_
    intro id hid hnew
    obtain ⟨row, hrow, rfl⟩ := List.mem_map.mp hid
    exact Nat.ne_of_lt (table.id_lt row hrow) (List.mem_singleton.mp hnew)

/-- Keeps the rows with a property. -/
def filter (table : Table α) (keep : Row α → Bool) : Table α where
  rows := table.rows.filter keep
  nextId := table.nextId
  id_lt row hrow := table.id_lt row (List.mem_of_mem_filter hrow)
  nodup := (List.filter_sublist.map _).nodup table.nodup

/-- `DELETE` of the rows of a parent. -/
def deleteOf (table : Table α) (parent : ℕ) : Table α :=
  table.filter fun row => row.parent ≠ parent

/-- The row that a new value of a parent clashes with. -/
def clashing (table : Table α) (conflict : OnConflict α κ) (parent : ℕ) (value : α) :
    Option (Row α) :=
  table.rows.find? fun row => row.parent = parent && conflict.clash row.value value

/-- `INSERT` of one row. The number is that of the row that was added or updated. -/
def insert (table : Table α) (conflict : OnConflict α κ) (parent : ℕ) (value : α) :
    Option ℕ × Table α :=
  match table.clashing conflict parent value, conflict with
  | none, _ => (some table.nextId, table.push parent value)
  | some row, .doUpdate _ =>
      (some row.id,
        table.mapValues fun row =>
          if row.parent = parent && conflict.clash row.value value then value else row.value)
  | some _, _ => (none, table)

variable {table : Table α} {conflict : OnConflict α κ} {parent other : ℕ} {value : α}

/-- A pushed value is the last one of its parent. -/
theorem valuesOf_push :
    (table.push parent value).valuesOf other =
      table.valuesOf other ++ if parent = other then [value] else [] := by
  by_cases h : parent = other <;> simp [valuesOf, push, List.filter_append, h]

/-- A filter that keeps all rows keeps the table. -/
theorem filter_eq_self {keep : Row α → Bool} (h : ∀ row ∈ table.rows, keep row = true) :
    table.filter keep = table :=
  Table.ext (List.filter_eq_self.mpr h) rfl

/-- Nothing is left of the parent. -/
theorem valuesOf_deleteOf : (table.deleteOf parent).valuesOf parent = [] := by
  simp [valuesOf, deleteOf, filter, List.filter_filter]

/-- A value clashes exactly if there is a row that it clashes with. -/
theorem any_clash_iff (table : Table α) (conflict : OnConflict α κ) (parent : ℕ) (value : α) :
    (table.valuesOf parent).any (conflict.clash · value) = true ↔
      (table.clashing conflict parent value).isSome = true := by
  simp [valuesOf, clashing, List.find?_isSome]

/-- An insertion merges its value into those of its parent. -/
theorem insert_valuesOf :
    (table.insert conflict parent value).2.valuesOf parent =
      conflict.merge (table.valuesOf parent) value := by
  have hany := any_clash_iff table conflict parent value
  unfold insert OnConflict.merge
  cases hclash : table.clashing conflict parent value with
  | none =>
      rw [hclash] at hany
      rw [if_neg (by simp [hany]), valuesOf_push, if_pos rfl]
  | some row =>
      rw [hclash] at hany
      rw [if_pos (hany.mpr rfl)]
      cases conflict with
      | doUpdate key =>
          simp only [valuesOf, mapValues, List.filter_map, List.map_map]
          refine List.map_congr_left fun old hold => ?_
          have hparent : old.parent = parent := by
            simpa using List.of_mem_filter hold
          simp [hparent, OnConflict.resolve]
      | unchecked | doNothing key =>
          simp [OnConflict.resolve]

/-- An insertion leaves the other parents alone. -/
theorem insert_valuesOf_ne (h : other ≠ parent) :
    (table.insert conflict parent value).2.valuesOf other = table.valuesOf other := by
  unfold insert
  cases hclash : table.clashing conflict parent value with
  | none => rw [valuesOf_push, if_neg (Ne.symm h), List.append_nil]
  | some row =>
      cases conflict with
      | doUpdate key =>
          simp only [valuesOf, mapValues, List.filter_map, List.map_map]
          refine List.map_congr_left fun old hold => ?_
          have hparent : old.parent = other := by simpa using List.of_mem_filter hold
          simp [hparent, h]
      | unchecked | doNothing key => rfl

/-- An insertion deletes no row. -/
theorem hasId_insert {id : ℕ} (h : table.hasId id = true) :
    (table.insert conflict parent value).2.hasId id = true := by
  unfold insert
  cases hclash : table.clashing conflict parent value with
  | none =>
      simp only [hasId, push, List.any_append, Bool.or_eq_true]
      exact .inl h
  | some row =>
      cases conflict with
      | doUpdate key => simpa [hasId, mapValues] using h
      | unchecked | doNothing key => exact h

/-- A row belongs to the parent of the insertion, or is an old one that may have a new value. -/
theorem parent_of_mem_insert {row : Row α} (h : row ∈ (table.insert conflict parent value).2.rows) :
    row.parent = parent ∨ ∃ old ∈ table.rows, old.parent = row.parent := by
  unfold insert at h
  cases hclash : table.clashing conflict parent value with
  | none =>
      rw [hclash] at h
      rcases List.mem_append.mp h with h | h
      · exact .inr ⟨row, h, rfl⟩
      · rw [List.mem_singleton.mp h]
        exact .inl rfl
  | some found =>
      rw [hclash] at h
      cases conflict with
      | doUpdate key =>
          obtain ⟨old, hold, rfl⟩ := List.mem_map.mp h
          exact .inr ⟨old, hold, rfl⟩
      | unchecked | doNothing key => exact .inr ⟨row, h, rfl⟩

/-! ## The rows of a parent -/

/-- The rows of a parent, with their numbers. -/
def rowsOf (table : Table α) (parent : ℕ) : List (Row α) :=
  table.rows.filter (·.parent = parent)

/-- The rows of all other parents. -/
def rowsExcept (table : Table α) (parent : ℕ) : List (Row α) :=
  table.rows.filter (·.parent ≠ parent)

/-- The rows of a parent. -/
theorem mem_rowsOf {row : Row α} :
    row ∈ table.rowsOf parent ↔ row ∈ table.rows ∧ row.parent = parent := by
  simp [rowsOf]

/-- A parent without rows has no values. -/
theorem rowsOf_eq_nil : table.rowsOf parent = [] ↔ table.valuesOf parent = [] := by
  rw [valuesOf, List.map_eq_nil_iff, rowsOf]

/-- No row is left of the parent. -/
theorem rowsOf_deleteOf : (table.deleteOf parent).rowsOf parent = [] :=
  rowsOf_eq_nil.mpr valuesOf_deleteOf

/-- The other rows are left. -/
theorem rowsExcept_deleteOf :
    (table.deleteOf parent).rowsExcept parent = table.rowsExcept parent := by
  simp [rowsExcept, deleteOf, filter, List.filter_filter]

/-- An insertion adds a row of its parent or changes values of such rows. -/
theorem rowsExcept_insert :
    (table.insert conflict parent value).2.rowsExcept parent = table.rowsExcept parent := by
  unfold insert
  cases hclash : table.clashing conflict parent value with
  | none => simp [rowsExcept, push, List.filter_append]
  | some found =>
      cases conflict with
      | doUpdate key =>
          show List.filter _ (List.map _ table.rows) = List.filter _ table.rows
          rw [List.filter_map]
          -- a change of values moves no row to another parent
          show List.map _ (table.rowsExcept parent) = table.rowsExcept parent
          refine (List.map_congr_left fun row hrow => ?_).trans (List.map_id _)
          have hparent : row.parent ≠ parent := by simpa using List.of_mem_filter hrow
          simp [hparent]
      | unchecked | doNothing key => rfl

/-- Ids are not used again. -/
theorem nextId_le_insert : table.nextId ≤ (table.insert conflict parent value).2.nextId := by
  unfold insert
  cases hclash : table.clashing conflict parent value with
  | none => exact Nat.le_succ _
  | some found =>
      cases conflict with
      | doUpdate key => exact Nat.le_refl _
      | unchecked | doNothing key => exact Nat.le_refl _

/-- The number of a row is the next one, or that of an old row of the same parent. -/
theorem id_of_mem_rowsOf_insert {row : Row α}
    (h : row ∈ (table.insert conflict parent value).2.rowsOf parent) :
    row.id = table.nextId ∨ ∃ old ∈ table.rowsOf parent, old.id = row.id := by
  obtain ⟨hrow, hparent⟩ := mem_rowsOf.mp h
  unfold insert at hrow
  cases hclash : table.clashing conflict parent value with
  | none =>
      rw [hclash] at hrow
      rcases List.mem_append.mp hrow with hrow | hrow
      · exact .inr ⟨row, mem_rowsOf.mpr ⟨hrow, hparent⟩, rfl⟩
      · exact .inl (by rw [List.mem_singleton.mp hrow])
  | some found =>
      rw [hclash] at hrow
      cases conflict with
      | doUpdate key =>
          obtain ⟨old, hold, rfl⟩ := List.mem_map.mp hrow
          exact .inr ⟨old, mem_rowsOf.mpr ⟨hold, hparent⟩, rfl⟩
      | unchecked | doNothing key => exact .inr ⟨row, mem_rowsOf.mpr ⟨hrow, hparent⟩, rfl⟩

/-! ## Several rows -/

section Several

variable {β : Type} {values : List α}

/-- `INSERT` of several rows of a parent. -/
def insertAll (table : Table α) (conflict : OnConflict α κ) (parent : ℕ) (values : List α) :
    Table α :=
  values.foldl (fun table value => (table.insert conflict parent value).2) table

/-- The first value is inserted first. -/
theorem insertAll_cons :
    table.insertAll conflict parent (value :: values) =
      (table.insert conflict parent value).2.insertAll conflict parent values := rfl

/-- The values of the parent after some INSERTs. -/
theorem insertAll_valuesOf :
    (table.insertAll conflict parent values).valuesOf parent =
      values.foldl conflict.merge (table.valuesOf parent) := by
  induction values generalizing table with
  | nil => rfl
  | cons value rest ih => rw [insertAll_cons, ih, insert_valuesOf, List.foldl_cons]

/-- Another parent keeps its values. -/
theorem insertAll_valuesOf_ne (h : other ≠ parent) :
    (table.insertAll conflict parent values).valuesOf other = table.valuesOf other := by
  induction values generalizing table with
  | nil => rfl
  | cons value rest ih => rw [insertAll_cons, ih, insert_valuesOf_ne h]

/-- A row has the new parent or that of an old row. -/
theorem parent_of_mem_insertAll {row : Row α}
    (h : row ∈ (table.insertAll conflict parent values).rows) :
    row.parent = parent ∨ ∃ old ∈ table.rows, old.parent = row.parent := by
  induction values generalizing table with
  | nil => exact .inr ⟨row, h, rfl⟩
  | cons value rest ih =>
      rcases ih h with hparent | ⟨old, hold, hparent⟩
      · exact .inl hparent
      · rcases parent_of_mem_insert hold with hnew | ⟨first, hfirst, hsame⟩
        · exact .inl (hparent ▸ hnew)
        · exact .inr ⟨first, hfirst, hsame.trans hparent⟩

/-- The rows that are added for a new parent belong to it. -/
theorem hasId_of_mem_insertAll {parents : Table β} {content : β}
    (h : ∀ row ∈ table.rows, parents.hasId row.parent = true) {row : Row α}
    (hrow : row ∈ (table.insertAll conflict parents.nextId values).rows) :
    (parents.push parent content).hasId row.parent = true := by
  simp only [hasId, push, List.any_append, Bool.or_eq_true]
  rcases parent_of_mem_insertAll hrow with hnew | ⟨old, hold, hparent⟩
  · exact .inr (by simp [hnew])
  · exact .inl (hparent ▸ h old hold)

/-- No row belongs to a number that was never given. -/
theorem valuesOf_eq_nil_of_parents {parents : Table β}
    (h : ∀ row ∈ table.rows, parents.hasId row.parent = true) :
    table.valuesOf parents.nextId = [] := by
  rw [valuesOf, List.map_eq_nil_iff, List.filter_eq_nil_iff]
  intro row hrow hparent
  obtain ⟨found, hfound, hid⟩ := List.any_eq_true.mp (h row hrow)
  have hlt := parents.id_lt found hfound
  rw [of_decide_eq_true hid, of_decide_eq_true hparent] at hlt
  exact Nat.lt_irrefl _ hlt

end Several

/-! ## Numbers and keys -/

section Keys

variable {key : α → κ} {id : ℕ} {k : κ}

/-- The key of a parent's row with a number. -/
def keyOf (table : Table α) (key : α → κ) (parent id : ℕ) : Option κ :=
  (table.rows.find? fun row => row.id = id && row.parent = parent).map fun row => key row.value

omit [DecidableEq κ] in
/-- The key of a row of the parent. -/
theorem keyOf_eq_some :
    table.keyOf key parent id = some k ↔
      ∃ row ∈ table.rows, row.id = id ∧ row.parent = parent ∧ key row.value = k := by
  unfold keyOf
  rw [Option.map_eq_some_iff]
  constructor
  · intro h
    obtain ⟨row, hfind, hkey⟩ := h
    have hrow := List.find?_some hfind
    simp only [Bool.and_eq_true, decide_eq_true_eq] at hrow
    exact ⟨row, List.mem_of_find?_eq_some hfind, hrow.1, hrow.2, hkey⟩
  · intro h
    obtain ⟨row, hrow, hid, hparent, hkey⟩ := h
    cases hfind : table.rows.find? fun row => row.id = id && row.parent = parent with
    | none =>
        have hnone := List.find?_eq_none.mp hfind row hrow
        simp [hid, hparent] at hnone
    | some first =>
        have hfirst := List.find?_some hfind
        simp only [Bool.and_eq_true, decide_eq_true_eq] at hfirst
        -- Numbers are unique, so it is the same row.
        have hsame := List.inj_on_of_nodup_map table.nodup (List.mem_of_find?_eq_some hfind) hrow
          (hfirst.1.trans hid.symm)
        exact ⟨first, rfl, hsame ▸ hkey⟩

omit [DecidableEq κ] in
/-- Rows of one parent with different keys have different numbers. -/
theorem keyOf_inj (h : ((table.valuesOf parent).map key).Nodup) {other : ℕ}
    (hid : table.keyOf key parent id = some k) (hother : table.keyOf key parent other = some k) :
    id = other := by
  obtain ⟨row, hrow, rfl, hparent, hkey⟩ := keyOf_eq_some.mp hid
  obtain ⟨second, hsecond, rfl, hparent', hkey'⟩ := keyOf_eq_some.mp hother
  rw [valuesOf, List.map_map] at h
  have hsame := List.inj_on_of_nodup_map h
    (List.mem_filter.mpr ⟨hrow, by simpa using hparent⟩)
    (List.mem_filter.mpr ⟨hsecond, by simpa using hparent'⟩) (hkey.trans hkey'.symm)
  rw [hsame]

/-- The rows after a push are the old ones and the new one. -/
theorem mem_rows_push {row : Row α} : row ∈ (table.push parent value).rows ↔
    row ∈ table.rows ∨ row = { id := table.nextId, parent := parent, value := value } := by
  simp [push]

/-- A row clashes because it has the key. -/
theorem exists_clash_of_clashing {row : Row α}
    (h : table.clashing (.doUpdate fun value => some (key value)) parent value = some row) :
    row ∈ table.rows ∧ row.parent = parent ∧ key row.value = key value := by
  have hrow := List.find?_some h
  simp only [OnConflict.clash_doUpdate, Bool.and_eq_true, decide_eq_true_eq] at hrow
  exact ⟨List.mem_of_find?_eq_some h, hrow⟩

/-- Keys stay with their numbers. -/
theorem keyOf_insert (hid : table.keyOf key other id = some k) :
    (table.insert (.doUpdate fun value => some (key value)) parent value).2.keyOf key other id =
      some k := by
  obtain ⟨row, hrow, rfl, rfl, rfl⟩ := keyOf_eq_some.mp hid
  rw [keyOf_eq_some]
  unfold insert
  cases hclash : table.clashing (.doUpdate fun value => some (key value)) parent value with
  | none => exact ⟨row, mem_rows_push.mpr (.inl hrow), rfl, rfl, rfl⟩
  | some old =>
      refine ⟨_, List.mem_map_of_mem hrow, rfl, rfl, ?_⟩
      by_cases hsame : row.parent = parent ∧ key row.value = key value
      · simp [hsame]
      · simp only [OnConflict.clash_doUpdate, Bool.and_eq_true, decide_eq_true_eq, if_neg hsame]

/-- The number that an insertion gives belongs to the key of its value. -/
theorem insert_keyOf (table : Table α) (key : α → κ) (parent : ℕ) (value : α) :
    ∃ id, (table.insert (.doUpdate fun value => some (key value)) parent value).1 = some id ∧
      (table.insert (.doUpdate fun value => some (key value)) parent value).2.keyOf key parent id =
        some (key value) := by
  simp only [keyOf_eq_some]
  unfold insert
  cases hclash : table.clashing (.doUpdate fun value => some (key value)) parent value with
  | none => exact ⟨_, rfl, _, mem_rows_push.mpr (.inr rfl), rfl, rfl, rfl⟩
  | some old =>
      obtain ⟨hold, hparent, hkey⟩ := exists_clash_of_clashing hclash
      refine ⟨_, rfl, _, List.mem_map_of_mem hold, rfl, hparent, ?_⟩
      simp [hparent, hkey]

omit [DecidableEq κ] in
/-- A parent without values has no keys. -/
theorem keyOf_eq_none_of_valuesOf (h : table.valuesOf parent = []) :
    table.keyOf key parent id = none := by
  rw [Option.eq_none_iff_forall_ne_some]
  intro k hk
  obtain ⟨row, hrow, -, hparent, -⟩ := keyOf_eq_some.mp hk
  have hmem : row.value ∈ table.valuesOf parent :=
    List.mem_map_of_mem (List.mem_filter.mpr ⟨hrow, by simpa using hparent⟩)
  rw [h] at hmem
  cases hmem

/-- A row does not change its parent. -/
theorem keyOf_insert_eq_none {μ : Type} {key : α → μ} (hid : table.hasId id = true)
    (hnone : table.keyOf key other id = none) :
    (table.insert conflict parent value).2.keyOf key other id = none := by
  obtain ⟨row, hrow, hrowId⟩ := List.any_eq_true.mp hid
  rw [decide_eq_true_eq] at hrowId
  have hparent : row.parent ≠ other := by
    intro hparent
    have hsome : table.keyOf key other id = some (key row.value) :=
      keyOf_eq_some.mpr ⟨row, hrow, hrowId, hparent, rfl⟩
    rw [hnone] at hsome
    cases hsome
  rw [Option.eq_none_iff_forall_ne_some]
  intro k hk
  obtain ⟨found, hfound, hfoundId, hfoundParent, -⟩ := keyOf_eq_some.mp hk
  -- The row with the number is the old one, with the parent it had.
  obtain ⟨same, hsame, hsameId, hsameParent⟩ : ∃ same ∈ (table.insert conflict parent value).2.rows,
      same.id = row.id ∧ same.parent = row.parent := by
    unfold insert
    cases hclash : table.clashing conflict parent value with
    | none => exact ⟨row, mem_rows_push.mpr (.inl hrow), rfl, rfl⟩
    | some old =>
        cases conflict with
        | doUpdate key => exact ⟨_, List.mem_map_of_mem hrow, rfl, rfl⟩
        | unchecked | doNothing key => exact ⟨row, hrow, rfl, rfl⟩
  have heq := List.inj_on_of_nodup_map (table.insert conflict parent value).2.nodup hfound hsame
    (by rw [hfoundId, hsameId, hrowId])
  exact hparent (by rw [← hsameParent, ← heq, hfoundParent])

end Keys

/-! ## Rows that belong to keyed rows -/

section Joined

variable {β : Type} {child : Table β} {keys : ℕ → Option κ}

/-- The values of a table with the keys of the rows they belong to. -/
def joined (child : Table β) (keys : ℕ → Option κ) : List (κ × β) :=
  child.rows.filterMap fun row => (keys row.parent).map fun k => (k, row.value)

/-- Each parent has at most one row, and an insertion replaces it. -/
def single : OnConflict β Unit :=
  .doUpdate fun _ => some ()

@[simp] theorem single_clash (old new : β) : single.clash old new = true := rfl

/-- An insertion into the joined values is one with the key of the parent. -/
theorem joined_insert {id : ℕ} {k : κ} (hid : keys id = some k)
    (hinj : ∀ other, keys other = some k → other = id) (value : β) :
    (child.insert single id value).2.joined keys =
      (OnConflict.doUpdate fun pair => some pair.1).merge (child.joined keys) (k, value) := by
  have hany : (child.joined keys).any
      ((OnConflict.doUpdate fun pair : κ × β => some pair.1).clash · (k, value)) =
        (child.clashing single id value).isSome := by
    rw [Bool.eq_iff_iff]
    simp only [joined, clashing, OnConflict.clash_doUpdate, List.any_eq_true, List.mem_filterMap,
      Option.map_eq_some_iff, List.find?_isSome, single_clash, Bool.and_true, decide_eq_true_eq]
    constructor
    · intro h
      obtain ⟨pair, ⟨row, hrow, found, hfound, rfl⟩, rfl⟩ := h
      exact ⟨row, hrow, hinj _ hfound⟩
    · intro h
      obtain ⟨row, hrow, rfl⟩ := h
      exact ⟨_, ⟨row, hrow, k, hid, rfl⟩, rfl⟩
  unfold insert OnConflict.merge
  rw [hany]
  cases hclash : child.clashing single id value with
  | none => simp [joined, push, List.filterMap_append, hid]
  | some row =>
      simp only [joined, mapValues, single, Option.isSome_some, if_true, List.filterMap_map,
        List.map_filterMap]
      refine List.filterMap_congr fun old _ => ?_
      cases hkey : keys old.parent with
      | none => simp [hkey]
      | some found =>
          by_cases hsame : old.parent = id
          · have hfound : found = k := by simpa [hsame, hid] using hkey.symm
            simp [hid, hsame, hfound, OnConflict.resolve]
          · have hfound : found ≠ k := fun h => hsame (hinj _ (h ▸ hkey))
            simp [hkey, hsame, hfound]

omit [DecidableEq κ] in
/-- With different keys there is at most one value for a key. -/
theorem filter_key_eq_find [DecidableEq κ] {pairs : List (κ × β)} (h : (pairs.map Prod.fst).Nodup)
    (k : κ) : pairs.filter (·.1 = k) = (pairs.find? (·.1 = k)).toList := by
  induction pairs with
  | nil => rfl
  | cons pair rest ih =>
      obtain ⟨hnew, hrest⟩ := List.nodup_cons.mp h
      by_cases hpair : pair.1 = k
      · have hnil : rest.filter (·.1 = k) = [] := by
          rw [List.filter_eq_nil_iff]
          intro other hother hsame
          rw [decide_eq_true_eq] at hsame
          exact hnew (List.mem_map.mpr ⟨other, hother, hsame.trans hpair.symm⟩)
        simp [hpair, hnil]
      · simpa [hpair] using ih hrest

/-- The rows of a keyed row are the joined values with its key. -/
theorem valuesOf_eq_joined {id : ℕ} {k : κ} (hid : keys id = some k)
    (hinj : ∀ other, keys other = some k → other = id) :
    child.valuesOf id = ((child.joined keys).filter (·.1 = k)).map Prod.snd := by
  rw [joined, valuesOf, List.filter_filterMap, List.map_filterMap, ← List.filterMap_eq_map,
    List.filterMap_filter]
  refine List.filterMap_congr fun row _ => ?_
  by_cases hrow : row.parent = id
  · simp [hrow, hid, Option.filter]
  · cases hkey : keys row.parent with
    | none => simp [hrow]
    | some found =>
        have hfound : found ≠ k := fun h => hrow (hinj _ (h ▸ hkey))
        simp [hrow, hfound, Option.filter]

omit [DecidableEq κ] in
/-- A row that belongs to no keyed row does not show. -/
theorem joined_insert_of_none {id : ℕ} (hid : keys id = none) (value : β) :
    (child.insert single id value).2.joined keys = child.joined keys := by
  unfold insert
  cases hclash : child.clashing single id value with
  | none => simp [joined, push, List.filterMap_append, hid]
  | some found =>
      show List.filterMap _ (List.map _ child.rows) = List.filterMap _ child.rows
      rw [List.filterMap_map]
      refine List.filterMap_congr fun row _ => ?_
      by_cases hsame : row.parent = id
      · simp [hsame, hid]
      · simp [hsame]

omit [DecidableEq κ] in
/-- Nor does it show when it is deleted. -/
theorem joined_filter {keep : Row β → Bool}
    (h : ∀ row ∈ child.rows, keep row = false → keys row.parent = none) :
    (child.filter keep).joined keys = child.joined keys := by
  show List.filterMap _ (List.filter _ child.rows) = List.filterMap _ child.rows
  rw [List.filterMap_filter]
  refine List.filterMap_congr fun row hrow => ?_
  cases hkeep : keep row with
  | true => rw [if_pos rfl]
  | false => simp [h row hrow hkeep]

end Joined

/-! ## The rows of other parents -/

section Frames

/-- The values are those of the rows. -/
theorem valuesOf_eq_map (table : Table α) (parent : ℕ) :
    table.valuesOf parent = (table.rowsOf parent).map Row.value := rfl

/-- The rows of all other parents determine those of each of them. -/
theorem rowsOf_eq_filter (table : Table α) (h : other ≠ parent) :
    table.rowsOf other = (table.rowsExcept parent).filter (·.parent = other) := by
  rw [rowsOf, rowsExcept, List.filter_filter]
  refine List.filter_congr fun row _ => ?_
  by_cases hrow : row.parent = other
  · simp [hrow, h]
  · simp [hrow]

/-- The rows of another parent are among the others. -/
theorem rowsOf_congr {after : Table α} (h : other ≠ parent)
    (hrows : after.rowsExcept parent = table.rowsExcept parent) :
    after.rowsOf other = table.rowsOf other := by
  rw [rowsOf_eq_filter after h, rowsOf_eq_filter table h, hrows]

/-- The key is that of the first row with the id. -/
theorem keyOf_eq_find (table : Table α) {μ : Type} (key : α → μ) (parent id : ℕ) :
    table.keyOf key parent id =
      ((table.rowsOf parent).find? (·.id = id)).map fun row => key row.value := by
  rw [keyOf, rowsOf, List.find?_filter]
  congr 2
  funext row
  simp [Bool.and_comm]

/-- The number of a row of one parent is not that of a row of another one. -/
theorem keyOf_eq_none_of_keyOf {μ : Type} {key : α → μ} {k : μ} {id : ℕ} (h : other ≠ parent)
    (hid : table.keyOf key parent id = some k) : table.keyOf key other id = none := by
  obtain ⟨row, hrow, hrowId, hparent, -⟩ := keyOf_eq_some.mp hid
  rw [Option.eq_none_iff_forall_ne_some]
  intro k hk
  obtain ⟨found, hfound, hfoundId, hother, -⟩ := keyOf_eq_some.mp hk
  have hsame := List.inj_on_of_nodup_map table.nodup hfound hrow (hfoundId.trans hrowId.symm)
  exact h (by rw [← hother, hsame, hparent])

end Frames

end Table
