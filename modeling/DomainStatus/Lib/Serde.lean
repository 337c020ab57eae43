import Mathlib.Data.Countable.Basic
import Mathlib.Logic.Equiv.List

/-!
# Values as text

A text format for a type, in the manner of the `serde_json` crate. Any text may be read, and a text
that is no value gives an error message.
-/

/-- A format that reads back what it writes. -/
structure Codec (α : Type*) where
  encode : α → String
  decode : String → Except String α
  decode_encode : ∀ value, decode (encode value) = .ok value

attribute [simp] Codec.decode_encode

instance instCountableString : Countable String := by
  have hchar : Countable Char :=
    Function.Injective.countable (f := Char.toNat) fun left right h => by
      rw [← Char.ofNat_toNat left, ← Char.ofNat_toNat right, h]
  exact Function.Injective.countable (f := String.toList) fun _ _ h => String.toList_inj.mp h

/-- A way to write values as different texts is a format. -/
noncomputable def Codec.ofInjective {α : Type*} (encode : α → String)
    (h : Function.Injective encode) : Codec α := by
  classical
  exact
    { encode := encode
      decode := fun text =>
        if h : ∃ value, encode value = text then .ok h.choose else .error "no value"
      decode_encode := by
        intro value
        have hwritten : ∃ found, encode found = encode value := ⟨value, rfl⟩
        rw [dif_pos hwritten, h hwritten.choose_spec] }

/-- Values that can be numbered have a format, whatever the text of one of them. The other values
are written as longer texts, in tally marks. -/
theorem Codec.exists_encode_eq {α : Type*} [Countable α] (value : α) (text : String) :
    ∃ codec : Codec α, codec.encode value = text := by
  classical
  obtain ⟨number, hnumber⟩ := exists_injective_nat α
  let marks : α → List Char := fun other =>
    List.replicate (text.toList.length + 1 + number other) 'I'
  let encode : α → String := fun other =>
    if other = value then text else String.ofList (marks other)
  have hmarks : ∀ other, String.ofList (marks other) ≠ text := by
    intro other h
    have hlength := congrArg (fun text => text.toList.length) h
    simp only [marks, String.toList_ofList, List.length_replicate] at hlength
    omega
  have hencode : Function.Injective encode := by
    intro left right h
    by_cases hleft : left = value <;> by_cases hright : right = value
    · rw [hleft, hright]
    · simp only [encode, if_pos hleft, if_neg hright] at h
      exact absurd h.symm (hmarks right)
    · simp only [encode, if_neg hleft, if_pos hright] at h
      exact absurd h (hmarks left)
    · simp only [encode, if_neg hleft, if_neg hright] at h
      have hlength := congrArg (fun text => text.toList.length) h
      simp only [marks, String.toList_ofList, List.length_replicate] at hlength
      exact hnumber (by omega)
  exact ⟨Codec.ofInjective encode hencode, if_pos rfl⟩
