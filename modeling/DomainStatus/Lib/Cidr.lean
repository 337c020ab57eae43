import Mathlib.Algebra.Group.Nat.Defs
import Mathlib.Data.Nat.Notation

/-!
# Address blocks

Blocks of addresses that agree in their first bits. By `contains_iff` a block of which the first
word of an address decides can be told from that word.
-/

/-- The addresses of so many bits that agree with a base in their first bits. -/
structure Cidr (width : ℕ) where
  base : ℕ
  length : ℕ

namespace Cidr

variable {width : ℕ}

/-- The address is in the block. -/
def Contains (block : Cidr width) (address : ℕ) : Prop :=
  address / 2 ^ (width - block.length) = block.base / 2 ^ (width - block.length)

instance (block : Cidr width) (address : ℕ) : Decidable (block.Contains address) :=
  inferInstanceAs (Decidable (_ = _))

/-- A block no longer than what stands before the last bits does not depend on these. -/
theorem contains_iff {block : Cidr width} {low extra : ℕ}
    (hlow : width - block.length = low + extra) {high rest : ℕ} (hrest : rest < 2 ^ low) :
    block.Contains (high * 2 ^ low + rest) ↔
      high / 2 ^ extra = block.base / 2 ^ low / 2 ^ extra := by
  rw [Contains, hlow, Nat.pow_add, ← Nat.div_div_eq_div_mul, ← Nat.div_div_eq_div_mul,
    Nat.mul_comm, Nat.mul_add_div (Nat.two_pow_pos low), Nat.div_eq_of_lt hrest, Nat.add_zero]

/-- A mask of the first bits keeps these. -/
theorem and_mask {value bits low : ℕ} (hvalue : value < 2 ^ (low + bits)) :
    value &&& (2 ^ bits - 1) <<< low = value / 2 ^ low * 2 ^ low := by
  rw [← Nat.shiftRight_eq_div_pow, ← Nat.shiftLeft_eq]
  refine Nat.eq_of_testBit_eq fun i => ?_
  rw [Nat.testBit_and, Nat.testBit_shiftLeft, Nat.testBit_shiftLeft, Nat.testBit_two_pow_sub_one,
    Nat.testBit_shiftRight]
  by_cases hlow : low ≤ i
  · by_cases hbits : i - low < bits
    · simp [hlow, hbits]
    · -- A bit that is out of reach of the value.
      have hzero : value.testBit i = false :=
        Nat.testBit_lt_two_pow (Nat.lt_of_lt_of_le hvalue
          (Nat.pow_le_pow_right (by omega) (by omega)))
      simp [hlow, hbits, hzero]
  · simp [hlow]

end Cidr
