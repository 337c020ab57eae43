import Mathlib.Data.Nat.Notation
import Mathlib.Logic.Function.Basic
import Mathlib.Tactic.Common

/-!
# Files and directory entries

A directory in the manner of POSIX. Its entries name files, and a file that was opened stays with
its handle when its entry goes to another name. Opening with `O_CREAT | O_TRUNC` empties a file that
is there, a write goes to the place of the handle, and a rename replaces its target. No file has two
names.
-/

/-- The entries of a directory, and the contents of the files by their numbers. -/
structure Files (κ : Type*) where
  entries : κ → Option ℕ
  contents : List (List UInt8)
  lt_length : ∀ {name id}, entries name = some id → id < contents.length
  name_unique : ∀ {name other id}, entries name = some id → entries other = some id → name = other

namespace Files

variable {κ : Type*} [DecidableEq κ]

/-- A file after a write at an offset. A gap before the offset reads as zeros. -/
def writeAt (offset : ℕ) (chunk content : List UInt8) : List UInt8 :=
  content.take offset ++ List.replicate (offset - content.length) 0 ++ chunk ++
    content.drop (offset + chunk.length)

/-- The content of the file with this name. -/
def read (files : Files κ) (name : κ) : Option (List UInt8) :=
  (files.entries name).bind fun id => files.contents[id]?

/-- The directory without a name. -/
def unlink (files : Files κ) (name : κ) : Files κ where
  entries := Function.update files.entries name none
  contents := files.contents
  lt_length {other id} h := by
    by_cases hother : other = name
    · simp [hother] at h
    · rw [Function.update_of_ne hother] at h
      exact files.lt_length h
  name_unique {left right id} hleft hright := by
    by_cases hl : left = name
    · simp [hl] at hleft
    · by_cases hr : right = name
      · simp [hr] at hright
      · rw [Function.update_of_ne hl] at hleft
        rw [Function.update_of_ne hr] at hright
        exact files.name_unique hleft hright

/-- The directory with a name for a file that has none. -/
def link (files : Files κ) (name : κ) (id : ℕ) (hid : id < files.contents.length)
    (hfree : ∀ other, files.entries other ≠ some id) : Files κ where
  entries := Function.update files.entries name (some id)
  contents := files.contents
  lt_length {other found} h := by
    by_cases hother : other = name
    · simp only [hother, Function.update_self, Option.some.injEq] at h
      exact h ▸ hid
    · rw [Function.update_of_ne hother] at h
      exact files.lt_length h
  name_unique {left right found} hleft hright := by
    by_cases hl : left = name <;> by_cases hr : right = name
    · rw [hl, hr]
    · simp only [hl, Function.update_self, Option.some.injEq] at hleft
      rw [Function.update_of_ne hr] at hright
      exact absurd (hleft ▸ hright) (hfree right)
    · simp only [hr, Function.update_self, Option.some.injEq] at hright
      rw [Function.update_of_ne hl] at hleft
      exact absurd (hright ▸ hleft) (hfree left)
    · rw [Function.update_of_ne hl] at hleft
      rw [Function.update_of_ne hr] at hright
      exact files.name_unique hleft hright

/-- The directory with one more file, which has no name and nothing in it. -/
def alloc (files : Files κ) : Files κ where
  entries := files.entries
  contents := files.contents ++ [[]]
  lt_length h := by simpa using Nat.lt_succ_of_lt (files.lt_length h)
  name_unique := files.name_unique

/-- A change to the content of one file. -/
def modify (files : Files κ) (id : ℕ) (change : List UInt8 → List UInt8) : Files κ where
  entries := files.entries
  contents := files.contents.modify id change
  lt_length h := by simpa using files.lt_length h
  name_unique := files.name_unique

/-- Opens a file for writing, with `O_CREAT | O_TRUNC`, and returns its number. -/
def create (files : Files κ) (name : κ) : ℕ × Files κ :=
  match files.entries name with
  | some id => (id, files.modify id fun _ => [])
  | none =>
      (files.contents.length, files.alloc.link name files.contents.length (by simp [alloc])
        fun _ h => Nat.lt_irrefl _ (files.lt_length h))

/-- Writes a chunk through a handle. -/
def write (files : Files κ) (id offset : ℕ) (chunk : List UInt8) : Files κ :=
  files.modify id (writeAt offset chunk)

/-- When a name is removed, no other name has its file. -/
theorem unlink_free {files : Files κ} {name : κ} {id : ℕ} (h : files.entries name = some id)
    (other : κ) : (files.unlink name).entries other ≠ some id := by
  intro hother
  by_cases hname : other = name
  · simp [unlink, hname] at hother
  · simp only [unlink, Function.update_of_ne hname] at hother
    exact hname (files.name_unique hother h)

/-- Moves a file to another name, whose own file goes. There must be a file to move. -/
def rename (files : Files κ) (source target : κ) : Option (Files κ) :=
  match h : files.entries source with
  | none => none
  | some id => some ((files.unlink source).link target id (files.lt_length h) (unlink_free h))

/-- Removes a name. There must be one. -/
def remove (files : Files κ) (name : κ) : Option (Files κ) :=
  (files.entries name).map fun _ => files.unlink name

/-! ## What the operations do -/

variable {files : Files κ} {name : κ}

/-- After `create` the name has the returned file, which is empty. -/
theorem create_spec (files : Files κ) (name : κ) :
    (files.create name).2.entries name = some (files.create name).1 ∧
      (files.create name).2.contents[(files.create name).1]? = some [] := by
  unfold create
  cases h : files.entries name with
  | some id =>
      have hid := files.lt_length h
      simp [modify, h, hid]
  | none => simp [link, alloc]

/-- The other names are not concerned. -/
theorem entries_create_of_ne {other : κ} (hne : other ≠ name) :
    (files.create name).2.entries other = files.entries other := by
  unfold create
  split
  · rfl
  · simp [link, alloc, Function.update_of_ne hne]

/-- Other names keep their files, with what is in them. -/
theorem read_create_of_ne {other : κ} (hne : other ≠ name) :
    (files.create name).2.read other = files.read other := by
  rw [read, read, entries_create_of_ne hne]
  cases hother : files.entries other with
  | none => rfl
  | some found =>
      have hfound := files.lt_length hother
      simp only [Option.bind_some]
      unfold create
      cases h : files.entries name with
      | some id =>
          -- The other file has another number.
          have hid : id ≠ found := fun heq => hne (files.name_unique hother (heq ▸ h))
          simp [modify, hid]
      | none => simp [link, alloc, List.getElem?_append_left hfound]

omit [DecidableEq κ] in
/-- A change of a file is not seen under the names of others. -/
theorem read_modify_of_ne {id : ℕ} {change : List UInt8 → List UInt8}
    (hne : files.entries name ≠ some id) :
    (files.modify id change).read name = files.read name := by
  simp only [read, modify]
  cases hname : files.entries name with
  | none => rfl
  | some found =>
      have hid : id ≠ found := fun heq => hne (heq ▸ hname)
      simp [List.getElem?_modify, hid]

/-- A rename takes the file of its source to its target. -/
theorem rename_eq_some {source target : κ} {id : ℕ} (h : files.entries source = some id) :
    ∃ after, files.rename source target = some after ∧ after.contents = files.contents ∧
      after.entries = Function.update (Function.update files.entries source none) target
        (some id) := by
  unfold rename
  split
  next hnone =>
    rw [h] at hnone
    cases hnone
  next found hfound =>
    rw [h] at hfound
    cases hfound
    exact ⟨_, rfl, rfl, rfl⟩

/-- Only a missing file cannot be renamed. -/
theorem rename_eq_none {source target : κ} :
    files.rename source target = none ↔ files.entries source = none := by
  unfold rename
  split
  · simp [*]
  · simp [*]

end Files
