import Mathlib.Algebra.Group.Nat.Defs
import Mathlib.Data.Int.Notation
import Mathlib.Tactic.Common

/-!
# Points in time

A point in time in the manner of `DateTime<Utc>` of the crate `chrono`: whole seconds since the Unix
epoch, and nanoseconds that count up from there, before 1970 as well. More than `10 ^ 9`
nanoseconds stand for a leap second.
-/

namespace Chrono

/-- The seconds of `DateTime::<Utc>::MIN_UTC`. -/
def minTimestamp : ℤ :=
  -8334601228800

/-- The seconds of `DateTime::<Utc>::MAX_UTC`. -/
def maxTimestamp : ℤ :=
  8210266876799

/-- A point in time that `chrono` can represent. -/
structure DateTime where
  timestamp : ℤ
  nanos : ℕ
  min_le : minTimestamp ≤ timestamp
  le_max : timestamp ≤ maxTimestamp
  nanos_lt : nanos < 2 * 10 ^ 9
  deriving DecidableEq

namespace DateTime

/-- `DateTime::from_timestamp`. -/
def fromTimestamp (secs : ℤ) (nsecs : ℕ) : Option DateTime :=
  if h : (minTimestamp ≤ secs ∧ secs ≤ maxTimestamp) ∧ nsecs < 2 * 10 ^ 9 ∧
      (10 ^ 9 ≤ nsecs → secs % 60 = 59) then
    some { timestamp := secs, nanos := nsecs, min_le := h.1.1, le_max := h.1.2,
           nanos_lt := h.2.1 }
  else none

/-- `DateTime::timestamp_millis`. -/
def timestampMillis (dt : DateTime) : ℤ :=
  dt.timestamp * 1000 + (dt.nanos / 10 ^ 6 : ℕ)

/-- Rounded down to the millisecond. -/
def floorMillis (dt : DateTime) : DateTime :=
  { dt with
    nanos := dt.nanos / 10 ^ 6 * 10 ^ 6
    nanos_lt := Nat.lt_of_le_of_lt (Nat.div_mul_le_self _ _) dt.nanos_lt }

/-- The milliseconds of a point outside leap seconds split into its seconds and what is left. -/
theorem timestampMillis_split {dt : DateTime} (h : dt.nanos < 10 ^ 9) :
    dt.timestampMillis / 1000 = dt.timestamp ∧
      dt.timestampMillis % 1000 = (dt.nanos / 10 ^ 6 : ℕ) := by
  have hmillis : dt.nanos / 10 ^ 6 < 1000 := Nat.div_lt_of_lt_mul (by omega)
  unfold timestampMillis
  omega

end DateTime

end Chrono
