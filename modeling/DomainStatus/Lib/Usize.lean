import Mathlib.Algebra.Group.Nat.Defs
import Mathlib.Data.Nat.Notation

/-!
# Machine words

The arithmetic of `usize` on a 64-bit target, over the natural numbers.
-/

namespace Usize

/-- `usize::MAX`. -/
def usizeMax : ℕ := 2 ^ 64 - 1

/-- `usize::saturating_add`. -/
def saturatingAdd (left right : ℕ) : ℕ := min (left + right) usizeMax

end Usize
