import Mathlib.Algebra.Group.Nat.Defs
import Mathlib.Data.Int.Notation
import Mathlib.Data.Nat.Notation
import Mathlib.Algebra.Order.Group.Int
import Mathlib.Algebra.Ring.Int.Defs
import Mathlib.Data.Int.Cast.Lemmas
import Mathlib.Tactic.Common

/-!
# Values of JSON

Values as the `serde_json` crate reads them, and what can be asked of them. A whole number without
a sign is kept as 64 bits, one with a sign likewise, and all others are doubles.
-/

/-- A JSON value, with its numbers as `serde_json` keeps them. -/
inductive Json where
  | null
  | bool (value : Bool)
  | posInt (value : UInt64)
  | negInt (value : Int64)
  | float (bits : UInt64)
  | string (text : String)
  | array (elements : List Json)
  | object (fields : List (String × Json))

namespace Json

/-- The value of a field. Only objects have fields. -/
def get (key : String) : Json → Option Json
  | object fields => (fields.find? fun field => field.1 = key).map Prod.snd
  | _ => none

/-- The text of a string. -/
def asStr : Json → Option String
  | string text => some text
  | _ => none

/-- The value of a number that a `u64` can hold. -/
def asU64 : Json → Option ℕ
  | posInt value => some value.toNat
  | _ => none

/-- The value of a number that an `i64` can hold. -/
def asI64 : Json → Option ℤ
  | posInt value => if value.toNat < 2 ^ 63 then some value.toNat else none
  | negInt value => some value.toInt
  | _ => none

/-- The elements of an array. -/
def asArray : Json → Option (List Json)
  | array elements => some elements
  | _ => none

/-- A list of texts and nothing else. -/
def asStrings (value : Json) : Option (List String) := do
  (← value.asArray).mapM asStr

/-! ## Whole numbers -/

/-- `saturating_mul` of `i64`. -/
def saturatingMulI64 (left right : ℤ) : ℤ :=
  max (-2 ^ 63) (min (2 ^ 63 - 1) (left * right))

/-- The sign of a double. -/
def doubleSign (bits : UInt64) : ℤ :=
  if bits.toNat / 2 ^ 63 = 0 then 1 else -1

/-- The absolute value of a finite double, in units of 2^-1074. -/
def doubleUnits (bits : UInt64) : ℕ :=
  let exponent := bits.toNat / 2 ^ 52 % 2 ^ 11
  let fraction := bits.toNat % 2 ^ 52
  if exponent = 0 then fraction else (2 ^ 52 + fraction) * 2 ^ (exponent - 1)

/-- Neither an infinity nor a NaN. Texts of numbers are read as finite doubles. -/
def IsFiniteDouble (bits : UInt64) : Prop :=
  bits.toNat / 2 ^ 52 % 2 ^ 11 ≠ 2 ^ 11 - 1

instance (bits : UInt64) : Decidable (IsFiniteDouble bits) :=
  inferInstanceAs (Decidable (_ ≠ _))

/-- `as i64` of a double: cut off towards zero, at the nearest bound where that does not fit. NaN
is 0. -/
def castDouble (bits : UInt64) : ℤ :=
  if IsFiniteDouble bits then
    max (-2 ^ 63) (min (2 ^ 63 - 1) (doubleSign bits * (doubleUnits bits / 2 ^ 1074 : ℕ)))
  else if bits.toNat % 2 ^ 52 = 0 then if doubleSign bits = 1 then 2 ^ 63 - 1 else -2 ^ 63
  else 0

/-- `as_f64`, cast to `i64`. A whole number of 64 bits may be rounded, but is asked for only when
it is above the `i64`, and stays there. -/
def castF64 : Json → Option ℤ
  | posInt value => some (min value.toNat (2 ^ 63 - 1))
  | negInt value => some value.toInt
  | float bits => some (castDouble bits)
  | _ => none

/-- The value is this whole number, however it is written. -/
def IsInteger (number : ℤ) : Json → Prop
  | posInt value => number = value.toNat
  | negInt value => number = value.toInt
  | float bits => IsFiniteDouble bits ∧ number * 2 ^ 1074 = doubleSign bits * doubleUnits bits
  | _ => False

/-- A whole number that fits is cast to itself. -/
theorem castDouble_eq {bits : UInt64} {number : ℤ} (hfinite : IsFiniteDouble bits)
    (h : number * 2 ^ 1074 = doubleSign bits * doubleUnits bits)
    (hfits : -2 ^ 63 ≤ number ∧ number < 2 ^ 63) : castDouble bits = number := by
  have hunit : (2 ^ 1074 : ℤ) ≠ 0 := (Int.pow_pos (by decide)).ne'
  have hcut : doubleSign bits * (doubleUnits bits / 2 ^ 1074 : ℕ) = number := by
    rw [Int.natCast_ediv, Nat.cast_pow, Nat.cast_ofNat]
    rcases ite_eq_or_eq (bits.toNat / 2 ^ 63 = 0) (1 : ℤ) (-1) with hsign | hsign
    · rw [doubleSign, hsign, one_mul] at h ⊢
      rw [← h, Int.mul_ediv_cancel _ hunit]
    · rw [doubleSign, hsign, neg_one_mul] at h ⊢
      have hunits : (doubleUnits bits : ℤ) = -number * 2 ^ 1074 := by
        rw [neg_mul, h, neg_neg]
      rw [hunits, Int.mul_ediv_cancel _ hunit, neg_neg]
  rw [castDouble, if_pos hfinite, hcut, min_eq_right (by omega), max_eq_right hfits.1]

end Json
