import DomainStatus.Lib.Utf8

/-!
# Percent-decoding of contact links

`percent_decode` of `src/parse/contact.rs`. A result of `none` stands for an index out of range, or
for a loop that has not ended. Read `percentDecodeLoop_eq` first: the loop over indices is a
recursion over the bytes.
-/

namespace DomainStatus.Contact

open Text Utf8

/-- The value of a hexadecimal digit. -/
def hexVal (b : UInt8) : Option UInt8 :=
  if 0x30 ≤ b ∧ b ≤ 0x39 then some (b - 0x30)
  else if 0x61 ≤ b ∧ b ≤ 0x66 then some (b - 0x61 + 10)
  else if 0x41 ≤ b ∧ b ≤ 0x46 then some (b - 0x41 + 10)
  else none

/-- The byte that two digits stand for. -/
def hexByte (hi lo : UInt8) : Option UInt8 :=
  match hexVal hi, hexVal lo with
  | some hi, some lo => some (hi <<< 4 ||| lo)
  | _, _ => none

/-- The body of the loop: the next index and the result so far. -/
def percentDecodeStep (bytes : List UInt8) (i : ℕ) (result : List UInt8) :
    Option (ℕ × List UInt8) := do
  let b ← bytes[i]?
  if b = 0x25 ∧ i + 2 < bytes.length then
    let hi ← bytes[i + 1]?
    let lo ← bytes[i + 2]?
    match hexByte hi lo with
    | some byte => return (i + 3, result ++ [byte])
    | none => return (i + 1, result ++ [b])
  else return (i + 1, result ++ [b])

/-- The loop, with a bound on its rounds. -/
def percentDecodeLoop (bytes : List UInt8) : ℕ → ℕ → List UInt8 → Option (List UInt8)
  | 0, _, _ => none
  | fuel + 1, i, result =>
      if i < bytes.length then do
        let (i, result) ← percentDecodeStep bytes i result
        percentDecodeLoop bytes fuel i result
      else some result

/-- The text with its percent escapes decoded. -/
def percentDecode (fuel : ℕ) (s : List Char) : Option (List Char) :=
  (percentDecodeLoop (encode s) fuel 0 []).map decodeLossy

/-! ## The loop -/

/-- The bytes with each escape replaced by the byte that it stands for. -/
@[grind =] def decodeEscapes : List UInt8 → List UInt8
  | b :: hi :: lo :: rest =>
      if b = 0x25 then
        match hexByte hi lo with
        | some byte => byte :: decodeEscapes rest
        | none => b :: decodeEscapes (hi :: lo :: rest)
      else b :: decodeEscapes (hi :: lo :: rest)
  | bytes => bytes

variable {b hi lo : UInt8} {bytes rest result : List UInt8} {i fuel : ℕ} {s text : List Char}
  {c : Char}

/-- A byte other than the percent sign is kept. -/
theorem decodeEscapes_cons_of_ne (h : b ≠ 0x25) (rest : List UInt8) :
    decodeEscapes (b :: rest) = b :: decodeEscapes rest := by
  match rest with
  | [] | [_] => rfl
  | hi :: lo :: rest => rw [decodeEscapes, if_neg h]

/-- An escape is decoded. -/
theorem decodeEscapes_percent_some {byte : UInt8} (h : hexByte hi lo = some byte) :
    decodeEscapes (0x25 :: hi :: lo :: rest) = byte :: decodeEscapes rest := by
  rw [decodeEscapes, if_pos rfl, h]

/-- A percent sign without two digits is kept. -/
theorem decodeEscapes_percent_none (h : hexByte hi lo = none) :
    decodeEscapes (0x25 :: hi :: lo :: rest) = 0x25 :: decodeEscapes (hi :: lo :: rest) := by
  rw [decodeEscapes, if_pos rfl, h]

/-- A step never leaves the bytes. It goes on behind what it has read. -/
theorem percentDecodeStep_spec (h : i < bytes.length) (result : List UInt8) :
    ∃ next more, percentDecodeStep bytes i result = some (next, result ++ more) ∧ i < next ∧
      next ≤ bytes.length ∧
      decodeEscapes (bytes.drop i) = more ++ decodeEscapes (bytes.drop next) := by
  rw [List.drop_eq_getElem_cons h]
  unfold percentDecodeStep
  rw [List.getElem?_eq_getElem h, Option.bind_eq_bind, Option.bind_some]
  by_cases hescape : bytes[i] = 0x25 ∧ i + 2 < bytes.length
  · obtain ⟨hpercent, hlength⟩ := hescape
    have hdrop : bytes.drop (i + 1) = bytes[i + 1] :: bytes[i + 2] :: bytes.drop (i + 3) := by
      rw [List.drop_eq_getElem_cons (by omega), List.drop_eq_getElem_cons hlength]
    rw [if_pos ⟨hpercent, hlength⟩, List.getElem?_eq_getElem (by omega),
      List.getElem?_eq_getElem hlength, hpercent]
    cases hbyte : hexByte bytes[i + 1] bytes[i + 2] with
    | some byte =>
        refine ⟨i + 3, [byte], ?_, by omega, by omega, ?_⟩
        · simp [hbyte]
        · rw [hdrop, decodeEscapes_percent_some hbyte, List.singleton_append]
    | none =>
        refine ⟨i + 1, [0x25], ?_, by omega, by omega, ?_⟩
        · simp [hbyte]
        · rw [hdrop, decodeEscapes_percent_none hbyte, List.singleton_append]
  · refine ⟨i + 1, [bytes[i]], by rw [if_neg hescape]; rfl, by omega, by omega, ?_⟩
    rw [List.singleton_append]
    by_cases hpercent : bytes[i] = 0x25
    · -- too close to the end for an escape
      have hend : (bytes.drop (i + 1)).length ≤ 1 := by
        have hlength : ¬i + 2 < bytes.length := fun hlt => hescape ⟨hpercent, hlt⟩
        rw [List.length_drop]
        omega
      match hrest : bytes.drop (i + 1), hend with
      | [], _ => rfl
      | [_], _ => rfl
    · exact decodeEscapes_cons_of_ne hpercent _

/-- The loop ends, and decodes what is left. -/
theorem percentDecodeLoop_eq (hi : i ≤ bytes.length) (hfuel : bytes.length - i < fuel)
    (result : List UInt8) :
    percentDecodeLoop bytes fuel i result = some (result ++ decodeEscapes (bytes.drop i)) := by
  induction fuel generalizing i result with
  | zero => omega
  | succ fuel ih =>
      rw [percentDecodeLoop]
      split
      case isTrue hlt =>
        obtain ⟨next, more, hstep, hnext, hle, hdecode⟩ := percentDecodeStep_spec hlt result
        rw [hstep, hdecode, ← List.append_assoc]
        exact ih hle (by omega) (result ++ more)
      case isFalse =>
        rw [List.drop_eq_nil_of_le (by omega), decodeEscapes, List.append_nil]
        simp

/-- With enough fuel the loop decodes all escapes. -/
theorem percentDecode_eq (h : len s < fuel) :
    percentDecode fuel s = some (decodeLossy (decodeEscapes (encode s))) := by
  rw [percentDecode, percentDecodeLoop_eq (Nat.zero_le _) (by rwa [length_encode])]
  rfl

/-! ## Escapes -/

/-- The two ways to write a hexadecimal digit. -/
def hexDigits (d : ℕ) : List Char :=
  [Nat.digitChar d, (Nat.digitChar d).toUpper]

/-- `%XX` for a byte. -/
def IsEscapeOf (b : UInt8) (text : List Char) : Prop :=
  ∃ hi ∈ hexDigits (b.toNat / 16), ∃ lo ∈ hexDigits (b.toNat % 16), text = ['%', hi, lo]

/-- The text has a well-formed escape. -/
def HasEscape (text : List Char) : Prop :=
  ∃ b before esc behind, IsEscapeOf b esc ∧ text = before ++ esc ++ behind

/-- The text writes these bytes, those of the set as escapes and the others as they are. -/
inductive Written (S : Set UInt8) : List UInt8 → List Char → Prop
  | nil : Written S [] []
  | escaped {b : UInt8} {esc : List Char} {bytes : List UInt8} {text : List Char} (hb : b ∈ S)
      (hesc : IsEscapeOf b esc) (h : Written S bytes text) : Written S (b :: bytes) (esc ++ text)
  | plain {b : UInt8} {bytes : List UInt8} {text : List Char} (hb : b ∉ S)
      (h : Written S bytes text) : Written S (b :: bytes) (Char.ofNat b.toNat :: text)

/-- The hexadecimal digits of a value are read as that value. -/
theorem hexDigits_spec : ∀ d < 16, ∀ c ∈ hexDigits d,
    c.toNat < 128 ∧ hexVal (UInt8.ofNat c.toNat) = some (UInt8.ofNat d) := by
  decide

/-- What is read as a value is one of its hexadecimal digits. -/
theorem hexVal_eq_some : ∀ n < 128, ∀ value, hexVal (UInt8.ofNat n) = some value →
    value.toNat < 16 ∧ Char.ofNat n ∈ hexDigits value.toNat := by
  have h : ∀ n < 128, (hexVal (UInt8.ofNat n)).all fun value =>
      value.toNat < 16 ∧ Char.ofNat n ∈ hexDigits value.toNat := by
    decide
  intro n hn value hvalue
  simpa [hvalue] using h n hn

/-- A hexadecimal digit is ASCII. -/
theorem lt_of_hexVal {value : UInt8} (h : hexVal b = some value) : b.toNat < 128 := by
  unfold hexVal at h
  split_ifs at h with hdigit hlower hupper
  · exact Nat.lt_of_le_of_lt (UInt8.le_iff_toNat_le.mp hdigit.2) (by decide)
  · exact Nat.lt_of_le_of_lt (UInt8.le_iff_toNat_le.mp hlower.2) (by decide)
  · exact Nat.lt_of_le_of_lt (UInt8.le_iff_toNat_le.mp hupper.2) (by decide)

/-- The byte of two hexadecimal digits. -/
theorem toNat_hexPair (hhi : hi.toNat < 16) (hlo : lo.toNat < 16) :
    (hi <<< 4 ||| lo).toNat = 16 * hi.toNat + lo.toNat := by
  have hshift : hi.toNat <<< 4 = 16 * hi.toNat := by
    rw [Nat.shiftLeft_eq]
    omega
  have hfour : (4 : UInt8).toNat % 8 = 4 := rfl
  rw [UInt8.toNat_or, UInt8.toNat_shiftLeft, hfour, Nat.mod_eq_of_lt (by omega),
    ← Nat.shiftLeft_add_eq_or_of_lt hlo, hshift]

/-- Digits of any case give back their byte. -/
theorem hexByte_of_escape {first second : Char} (hfirst : first ∈ hexDigits (b.toNat / 16))
    (hsecond : second ∈ hexDigits (b.toNat % 16)) :
    hexByte (UInt8.ofNat first.toNat) (UInt8.ofNat second.toNat) = some b := by
  have hb := b.toNat_lt
  have hhi : (UInt8.ofNat (b.toNat / 16)).toNat = b.toNat / 16 := toNat_byte (by omega)
  have hlo : (UInt8.ofNat (b.toNat % 16)).toNat = b.toNat % 16 := toNat_byte (by omega)
  have hjoin : UInt8.ofNat (b.toNat / 16) <<< 4 ||| UInt8.ofNat (b.toNat % 16) = b := by
    rw [← UInt8.toNat_inj, toNat_hexPair (by omega) (by omega)]
    omega
  rw [hexByte, (hexDigits_spec _ (by omega) first hfirst).2,
    (hexDigits_spec _ (by omega) second hsecond).2]
  exact congrArg some hjoin

/-- Where the decoder finds an escape, the text has one. -/
theorem escape_of_hexByte {first second : Char} {byte : UInt8} (hfirst : first.toNat < 128)
    (hsecond : second.toNat < 128)
    (h : hexByte (UInt8.ofNat first.toNat) (UInt8.ofNat second.toNat) = some byte) :
    IsEscapeOf byte ['%', first, second] := by
  unfold hexByte at h
  cases hhi : hexVal (UInt8.ofNat first.toNat) with
  | none => simp [hhi] at h
  | some hi =>
      cases hlo : hexVal (UInt8.ofNat second.toNat) with
      | none => simp [hhi, hlo] at h
      | some lo =>
          obtain ⟨hlthi, hmemhi⟩ := hexVal_eq_some _ hfirst _ hhi
          obtain ⟨hltlo, hmemlo⟩ := hexVal_eq_some _ hsecond _ hlo
          rw [Char.ofNat_toNat] at hmemhi hmemlo
          rw [hhi, hlo, Option.some.injEq] at h
          have hbyte := toNat_hexPair hlthi hltlo
          rw [h] at hbyte
          refine ⟨first, ?_, second, ?_, rfl⟩
          · rwa [hbyte, show (16 * hi.toNat + lo.toNat) / 16 = hi.toNat by omega]
          · rwa [hbyte, show (16 * hi.toNat + lo.toNat) % 16 = lo.toNat by omega]

/-- Bytes without a percent sign are passed over. -/
theorem decodeEscapes_append (h : 0x25 ∉ bytes) (rest : List UInt8) :
    decodeEscapes (bytes ++ rest) = bytes ++ decodeEscapes rest := by
  induction bytes with
  | nil => rfl
  | cons b bytes ih =>
      rw [List.mem_cons, not_or] at h
      rw [List.cons_append, decodeEscapes_cons_of_ne (Ne.symm h.1), ih h.2, List.cons_append]

/-- What is written comes back. -/
theorem decodeEscapes_written {S : Set UInt8} (hpercent : 0x25 ∈ S)
    (hhigh : ∀ b : UInt8, 0x80 ≤ b → b ∈ S) (h : Written S bytes text) :
    decodeEscapes (encode text) = bytes := by
  induction h with
  | nil => rfl
  | @escaped b esc bytes text hb hesc h ih =>
      obtain ⟨first, hfirst, second, hsecond, rfl⟩ := hesc
      have hlt := b.toNat_lt
      have hbytes : encode (['%', first, second] ++ text) =
          0x25 :: UInt8.ofNat first.toNat :: UInt8.ofNat second.toNat :: encode text := by
        rw [encode_append, encode_cons, encode_cons, encode_cons, encode_nil,
          encodeChar_of_ascii (by decide),
          encodeChar_of_ascii (hexDigits_spec _ (by omega) first hfirst).1,
          encodeChar_of_ascii (hexDigits_spec _ (by omega) second hsecond).1]
        rfl
      rw [hbytes, decodeEscapes_percent_some (hexByte_of_escape hfirst hsecond), ih]
  | @plain b bytes text hb h ih =>
      have hne : b ≠ 0x25 := fun heq => hb (heq ▸ hpercent)
      have hascii : b.toNat < 128 := by
        by_contra hge
        exact hb (hhigh b (UInt8.le_iff_toNat_le.mpr (Nat.le_of_not_lt hge)))
      have hchar : (Char.ofNat b.toNat).toNat = b.toNat :=
        (by decide : ∀ n < 128, (Char.ofNat n).toNat = n) b.toNat hascii
      rw [encode_cons, encodeChar_of_ascii (by omega), hchar, UInt8.ofNat_toNat,
        List.singleton_append, decodeEscapes_cons_of_ne hne, ih]

/-- A text without an escape has none further on. -/
theorem not_hasEscape_tail (h : ¬HasEscape (c :: text)) : ¬HasEscape text := by
  rintro ⟨b, before, esc, behind, hesc, rfl⟩
  exact h ⟨b, c :: before, esc, behind, hesc, rfl⟩

/-- The digits behind a percent sign are characters of the text. -/
theorem hasEscape_of_hexByte {byte : UInt8} (h : encode text = hi :: lo :: rest)
    (hbyte : hexByte hi lo = some byte) : HasEscape ('%' :: text) := by
  have hdigits : hi.toNat < 128 ∧ lo.toNat < 128 := by
    unfold hexByte at hbyte
    cases hhi : hexVal hi with
    | none => simp [hhi] at hbyte
    | some _ =>
        cases hlo : hexVal lo with
        | none => simp [hlo] at hbyte
        | some _ => exact ⟨lt_of_hexVal hhi, lt_of_hexVal hlo⟩
  obtain ⟨first, more, rfl, hfirst, rfl, hmore⟩ := exists_of_encode_eq_cons h hdigits.1
  obtain ⟨second, behind, rfl, hsecond, rfl, -⟩ := exists_of_encode_eq_cons hmore hdigits.2
  exact ⟨byte, [], ['%', first, second], behind, escape_of_hexByte hfirst hsecond hbyte, rfl⟩

/-- A text without escapes is left as it is. -/
theorem decodeEscapes_of_no_escape (h : ¬HasEscape text) :
    decodeEscapes (encode text) = encode text := by
  induction text with
  | nil => rfl
  | cons c text ih =>
      have ih := ih (not_hasEscape_tail h)
      rw [encode_cons]
      by_cases hpercent : c = '%'
      · subst hpercent
        rw [encodeChar_of_ascii (by decide), List.singleton_append]
        match hrest : encode text with
        | [] | [_] => rfl
        | hi :: lo :: rest =>
            have hnone : hexByte hi lo = none := by
              by_contra hsome
              obtain ⟨byte, hbyte⟩ := Option.ne_none_iff_exists'.mp hsome
              exact h (hasEscape_of_hexByte hrest hbyte)
            rw [hrest] at ih
            exact (decodeEscapes_percent_none hnone).trans (congrArg _ ih)
      · have hbyte : 0x25 ∉ String.utf8EncodeChar c := by
          intro hmem
          by_cases hc : c.toNat < 128
          · rw [encodeChar_of_ascii hc, List.mem_singleton, ← UInt8.toNat_inj,
              toNat_byte (by omega)] at hmem
            exact hpercent (Char.ext (UInt32.toNat_inj.mp hmem.symm))
          · exact absurd (le_of_mem_encodeChar (Nat.le_of_not_lt hc) hmem) (by decide)
        rw [decodeEscapes_append hbyte, ih]

/-- Decoding inverts encoding, and no text makes the loop fail. -/
theorem percent_decode_inverts :
    (∀ S : Set UInt8, 0x25 ∈ S → (∀ b : UInt8, 0x80 ≤ b → b ∈ S) →
      ∀ s written, Written S (encode s) written → ∀ fuel, len written < fuel →
        percentDecode fuel written = some s) ∧
    ∀ s fuel, len s < fuel →
      ∃ result, percentDecode fuel s = some result ∧ (¬HasEscape s → result = s) := by
  constructor
  · intro S hpercent hhigh s written hwritten fuel hfuel
    rw [percentDecode_eq hfuel, decodeEscapes_written hpercent hhigh hwritten, decodeLossy_encode]
  · intro s fuel hfuel
    refine ⟨_, percentDecode_eq hfuel, fun hnone => ?_⟩
    rw [decodeEscapes_of_no_escape hnone, decodeLossy_encode]

/-- `é/` with the set of the percent sign and all bytes that are not ASCII. -/
theorem percent_decode_inverts_accent : percentDecode 8 "%c3%A9/".toList = some "é/".toList := by
  refine percent_decode_inverts.1 {b | b = 0x25 ∨ 0x80 ≤ b} (Or.inl rfl) (fun b hb => Or.inr hb)
    "é/".toList "%c3%A9/".toList ?_ 8 (by decide)
  have hbytes : encode "é/".toList = [0xc3, 0xa9, 0x2f] := by decide
  rw [hbytes]
  refine .escaped (Or.inr (by decide)) ⟨'c', by decide, '3', by decide, rfl⟩ ?_
  refine .escaped (Or.inr (by decide)) ⟨'A', by decide, '9', by decide, rfl⟩ ?_
  exact .plain (by decide) .nil

end DomainStatus.Contact
