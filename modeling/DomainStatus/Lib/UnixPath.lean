import DomainStatus.Lib.Text

/-!
# Unix paths

Paths as text, in the manner of `std::path` on Unix.
-/

namespace UnixPath

/-- `Path::join`: an absolute path replaces the base. -/
def join (base name : String) : String :=
  if Text.startsWith name "/" then name
  else if base = "" ∨ Text.endsWith base "/" then base ++ name
  else base ++ "/" ++ name

/-- `Path::file_name`: the last component, unless it is `..`. -/
def fileName (path : String) : Option String :=
  match ((path.toList.splitOn '/').filter fun part => part ≠ [] ∧ part ≠ ['.']).getLast? with
  | none => none
  | some part => if part = ['.', '.'] then none else some (String.ofList part)

/-- `Path::extension`: what is behind the last dot of the file name. A dot at its start does not
count. -/
def extension (path : String) : Option String := do
  let name ← fileName path
  match name.toList.reverse.span (· ≠ '.') with
  | (_, []) | (_, [_]) => none
  | (after, _ :: _ :: _) => some (String.ofList after.reverse)

/-- Different names give different paths in one directory. -/
theorem join_inj {base left right : String} (hleft : Text.startsWith left "/" = false)
    (hright : Text.startsWith right "/" = false) (h : join base left = join base right) :
    left = right := by
  simp only [join, hleft, hright, Bool.false_eq_true, if_false] at h
  split at h
  · exact String.append_right_inj base |>.mp h
  · exact String.append_right_inj _ |>.mp h

end UnixPath
