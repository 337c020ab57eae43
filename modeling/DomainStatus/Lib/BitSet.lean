import Mathlib.Data.List.Basic
import Mathlib.Data.Nat.Notation

/-!
# Sets of small numbers in machine words

A set of numbers as a list of 64-bit words, as programs keep it. A number beyond the last word is in
no set and cannot be added.
-/

namespace BitSet

/-- The word with the bit of a number. -/
def mask (id : ℕ) : BitVec 64 :=
  1#64 <<< (id % 64)

/-- Whether the bit of a number is set. A number beyond the words is in no set. -/
def contains (bits : List (BitVec 64)) (id : ℕ) : Bool :=
  (bits[id / 64]?).any fun slot => slot &&& mask id != 0#64

/-- Sets the bit of a number. Beyond the words nothing is set. -/
def setBit (bits : List (BitVec 64)) (id : ℕ) : List (BitVec 64) :=
  bits.modify (id / 64) (· ||| mask id)

/-- The mask of a number has one bit. -/
theorem getLsbD_mask (id i : ℕ) : (mask id).getLsbD i = decide (i = id % 64) := by
  have hid : id % 64 < 64 := Nat.mod_lt _ (by decide)
  rw [mask, ← BitVec.twoPow_eq, BitVec.getLsbD_twoPow]
  grind

/-- The test of a word against the mask reads one bit. -/
theorem and_mask_ne_zero (slot : BitVec 64) (id : ℕ) :
    (slot &&& mask id != 0#64) = slot.getLsbD (id % 64) := by
  cases hbit : slot.getLsbD (id % 64) with
  | true =>
      rw [bne_iff_ne]
      intro hzero
      have hread := congrArg (fun word => word.getLsbD (id % 64)) hzero
      simp [getLsbD_mask, hbit] at hread
  | false =>
      have hzero : slot &&& mask id = 0#64 := by
        apply BitVec.eq_of_getLsbD_eq
        intro i hi
        rw [BitVec.getLsbD_and, getLsbD_mask, BitVec.getLsbD_zero]
        by_cases hi' : i = id % 64
        · simp [hi', hbit]
        · simp [hi']
      simp [hzero]

/-- A number is in the set if its bit is set in its word. -/
theorem contains_eq (bits : List (BitVec 64)) (id : ℕ) :
    contains bits id = (bits[id / 64]?).any fun slot => slot.getLsbD (id % 64) := by
  simp only [contains, and_mask_ne_zero]

@[simp] theorem length_setBit (bits : List (BitVec 64)) (id : ℕ) :
    (setBit bits id).length = bits.length :=
  List.length_modify ..

/-- Setting the bit of a number adds it and nothing else. -/
theorem contains_setBit (bits : List (BitVec 64)) (id other : ℕ) :
    contains (setBit bits id) other =
      (contains bits other || decide (other = id ∧ id / 64 < bits.length)) := by
  rw [contains_eq, contains_eq, setBit, List.getElem?_modify]
  by_cases hword : id / 64 = other / 64
  · cases hslot : bits[other / 64]? with
    | none =>
        have hlen : bits.length ≤ other / 64 := List.getElem?_eq_none_iff.mp hslot
        simp [hword, hlen]
    | some slot =>
        obtain ⟨hlen, -⟩ := List.getElem?_eq_some_iff.mp hslot
        -- Within one word the numbers differ by their bits.
        have hsame : (other % 64 = id % 64) ↔ other = id := by omega
        simp [hword, getLsbD_mask, hsame, hlen]
  · have hne : other ≠ id := fun h => hword (by rw [h])
    simp [hword, hne]

/-- Setting some bits adds those whose word is there. -/
theorem contains_foldl_setBit (ids : List ℕ) (bits : List (BitVec 64)) (other : ℕ) :
    contains (ids.foldl setBit bits) other =
      (contains bits other || decide (other ∈ ids ∧ other / 64 < bits.length)) := by
  induction ids generalizing bits with
  | nil => simp
  | cons id rest ih =>
      rw [List.foldl_cons, ih, contains_setBit, length_setBit]
      by_cases hid : other = id
      · subst hid
        by_cases hword : other / 64 < bits.length
        · simp [hword]
        · simp [hword]
      · simp [hid]

@[simp] theorem contains_replicate (words id : ℕ) :
    contains (List.replicate words 0#64) id = false := by
  rw [contains_eq, List.getElem?_replicate]
  split <;> simp

end BitSet
