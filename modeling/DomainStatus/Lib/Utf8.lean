import DomainStatus.Lib.ByteOffsets

/-!
# UTF-8 with errors

The bytes of a text, and `String::from_utf8_lossy` of the Rust standard library, which reads any
bytes. Bytes that are no character give replacement characters, one for each longest part that a
character could have started with. Read `decodeLossy_encode_append` first: encoded text is read
back, whatever stands behind it.
-/

namespace Utf8

open Text

/-- U+FFFD. -/
def replacement : Char :=
  '\uFFFD'

/-- The bytes of a text. -/
def encode (text : List Char) : List UInt8 :=
  text.flatMap String.utf8EncodeChar

/-- What the first byte of a character tells: how many bytes follow, the bounds of the first of
these, and the bits of the character that it has itself. -/
structure Lead where
  count : ℕ
  low : ℕ
  high : ℕ
  bits : ℕ

/-- What the first byte of a character says, if it can be one. -/
def lead (b : UInt8) : Option Lead :=
  let n := b.toNat
  if n < 0x80 then some ⟨0, 0x80, 0xbf, n⟩
  else if n < 0xc2 then none
  else if n < 0xe0 then some ⟨1, 0x80, 0xbf, n - 0xc0⟩
  else if n < 0xf0 then
    some ⟨2, if n = 0xe0 then 0xa0 else 0x80, if n = 0xed then 0x9f else 0xbf, n - 0xe0⟩
  else if n < 0xf5 then
    some ⟨3, if n = 0xf0 then 0x90 else 0x80, if n = 0xf4 then 0x8f else 0xbf, n - 0xf0⟩
  else none

/-- Reads the bytes that follow the first one. -/
def readTail : (count low high bits : ℕ) → List UInt8 → Option Char × List UInt8
  | 0, _, _, bits, rest => (some (Char.ofNat bits), rest)
  | _ + 1, _, _, _, [] => (none, [])
  | count + 1, low, high, bits, b :: rest =>
      if low ≤ b.toNat ∧ b.toNat ≤ high then
        readTail count 0x80 0xbf (bits * 64 + b.toNat % 64) rest
      else (none, b :: rest)

/-- The character at the start of some bytes, or the part of it that is there, and the rest. -/
def readChar (b : UInt8) (rest : List UInt8) : Option Char × List UInt8 :=
  match lead b with
  | some first => readTail first.count first.low first.high first.bits rest
  | none => (none, rest)

/-- The characters of some bytes. What is no UTF-8 becomes replacement characters. -/
def decodeFrom : ℕ → List UInt8 → List Char
  | 0, _ => []
  | _ + 1, [] => []
  | fuel + 1, b :: rest =>
      (readChar b rest).1.getD replacement :: decodeFrom fuel (readChar b rest).2

/-- `String::from_utf8_lossy`. -/
def decodeLossy (bytes : List UInt8) : List Char :=
  decodeFrom bytes.length bytes

variable {text : List Char} {c : Char} {b : UInt8} {bytes tail more rest : List UInt8}
  {count low high bits : ℕ}

@[simp] theorem encode_nil : encode [] = [] :=
  rfl

@[simp] theorem encode_cons : encode (c :: text) = String.utf8EncodeChar c ++ encode text :=
  rfl

/-- The bytes of two texts. -/
theorem encode_append (first second : List Char) :
    encode (first ++ second) = encode first ++ encode second :=
  List.flatMap_append

@[simp] theorem length_encode (text : List Char) : (encode text).length = len text := by
  induction text with
  | nil => rfl
  | cons c text ih =>
      rw [encode_cons, List.length_append, String.length_utf8EncodeChar, ih, len_cons]

/-- An ASCII character is its own byte. -/
theorem encodeChar_of_ascii (h : c.toNat < 128) :
    String.utf8EncodeChar c = [UInt8.ofNat c.toNat] := by
  have hle : c.val.toNat ≤ 0x7f := Nat.le_of_lt_succ h
  rw [String.utf8EncodeChar, if_pos hle]
  rfl

/-! ## One character -/

/-- The bytes that may follow the first one. -/
def InBounds : ℕ → ℕ → List UInt8 → Prop
  | _, _, [] => True
  | low, high, b :: rest => (low ≤ b.toNat ∧ b.toNat ≤ high) ∧ InBounds 0x80 0xbf rest

/-- The code point of a character. -/
def codePoint (bits : ℕ) (tail : List UInt8) : ℕ :=
  tail.foldl (fun bits b => bits * 64 + b.toNat % 64) bits

/-- Continuation bytes within their bounds are read. -/
theorem readTail_append (h : InBounds low high tail) :
    readTail tail.length low high bits (tail ++ rest) =
      (some (Char.ofNat (codePoint bits tail)), rest) := by
  induction tail generalizing low high bits with
  | nil => rfl
  | cons b tail ih =>
      rw [List.length_cons, List.cons_append, readTail, if_pos h.1, ih h.2]
      rfl

/-- The bytes of a character end too early. -/
theorem readTail_cut (h : InBounds low high tail) (hcount : tail.length < count) :
    readTail count low high bits tail = (none, []) := by
  induction tail generalizing low high bits count with
  | nil =>
      obtain ⟨count, rfl⟩ := Nat.exists_eq_add_of_lt hcount
      rfl
  | cons b tail ih =>
      rw [List.length_cons] at hcount
      obtain ⟨fewer, rfl⟩ : ∃ fewer, count = fewer + 1 := ⟨count - 1, by omega⟩
      rw [readTail, if_pos h.1]
      exact ih h.2 (by omega)

/-- The first bytes are within the bounds. -/
theorem inBounds_append_left (h : InBounds low high (tail ++ more)) : InBounds low high tail := by
  induction tail generalizing low high with
  | nil => trivial
  | cons b tail ih => exact ⟨h.1, ih h.2⟩

/-- The first byte of a character tells what the bytes behind it are. -/
structure Spelled (c : Char) (b : UInt8) (tail : List UInt8) (first : Lead) : Prop where
  encoded : String.utf8EncodeChar c = b :: tail
  lead : lead b = some first
  count : first.count = tail.length
  bounds : InBounds first.low first.high tail
  value : codePoint first.bits tail = c.toNat

/-- A small number is that of its byte. -/
theorem toNat_byte {n : ℕ} (h : n < 256) : (UInt8.ofNat n).toNat = n :=
  UInt8.toNat_ofNat_of_lt h

/-- Each character has a first byte and continuation bytes. -/
theorem exists_spelled (c : Char) : ∃ b tail first, Spelled c b tail first := by
  have hvalid : c.toNat < 0xd800 ∨ 0xdfff < c.toNat ∧ c.toNat < 0x110000 := c.valid
  generalize hn : c.toNat = n at hvalid
  have hval : c.val.toNat = n := hn
  by_cases hone : n ≤ 0x7f
  · refine ⟨UInt8.ofNat n, [], ⟨0, 0x80, 0xbf, n⟩, ?_, ?_, rfl, trivial, hn.symm⟩
    · rw [String.utf8EncodeChar, hval, if_pos hone]
    · rw [lead, toNat_byte (by omega), if_pos (by omega)]
  by_cases htwo : n ≤ 0x7ff
  · refine ⟨UInt8.ofNat (n / 64 % 0x20 + 0xc0), [UInt8.ofNat (n % 0x40 + 0x80)],
      ⟨1, 0x80, 0xbf, n / 64 % 0x20⟩, ?_, ?_, rfl, ?_, ?_⟩
    · rw [String.utf8EncodeChar, hval, if_neg hone, if_pos htwo]
    · rw [lead, toNat_byte (by omega), if_neg (by omega), if_neg (by omega), if_pos (by omega),
        Nat.add_sub_cancel]
    · dsimp only
      rw [InBounds, toNat_byte (by omega)]
      exact ⟨⟨by omega, by omega⟩, trivial⟩
    · show n / 64 % 0x20 * 64 + (UInt8.ofNat (n % 0x40 + 0x80)).toNat % 64 = c.toNat
      rw [toNat_byte (by omega)]
      omega
  by_cases hthree : n ≤ 0xffff
  · refine ⟨UInt8.ofNat (n / 4096 % 0x10 + 0xe0),
      [UInt8.ofNat (n / 64 % 0x40 + 0x80), UInt8.ofNat (n % 0x40 + 0x80)],
      ⟨2, if n / 4096 % 0x10 + 0xe0 = 0xe0 then 0xa0 else 0x80,
        if n / 4096 % 0x10 + 0xe0 = 0xed then 0x9f else 0xbf, n / 4096 % 0x10⟩,
      ?_, ?_, rfl, ?_, ?_⟩
    · rw [String.utf8EncodeChar, hval, if_neg hone, if_neg htwo, if_pos hthree]
    · rw [lead, toNat_byte (by omega), if_neg (by omega), if_neg (by omega), if_neg (by omega),
        if_pos (by omega), Nat.add_sub_cancel]
    · dsimp only
      rw [InBounds, InBounds, toNat_byte (by omega), toNat_byte (by omega)]
      refine ⟨⟨?_, ?_⟩, ⟨by omega, by omega⟩, trivial⟩
      · split <;> omega
      · split <;> omega
    · show (n / 4096 % 0x10 * 64 + (UInt8.ofNat (n / 64 % 0x40 + 0x80)).toNat % 64) * 64 +
        (UInt8.ofNat (n % 0x40 + 0x80)).toNat % 64 = c.toNat
      rw [toNat_byte (by omega), toNat_byte (by omega)]
      omega
  · refine ⟨UInt8.ofNat (n / 262144 % 0x08 + 0xf0),
      [UInt8.ofNat (n / 4096 % 0x40 + 0x80), UInt8.ofNat (n / 64 % 0x40 + 0x80),
        UInt8.ofNat (n % 0x40 + 0x80)],
      ⟨3, if n / 262144 % 0x08 + 0xf0 = 0xf0 then 0x90 else 0x80,
        if n / 262144 % 0x08 + 0xf0 = 0xf4 then 0x8f else 0xbf, n / 262144 % 0x08⟩,
      ?_, ?_, rfl, ?_, ?_⟩
    · rw [String.utf8EncodeChar, hval, if_neg hone, if_neg htwo, if_neg hthree]
    · rw [lead, toNat_byte (by omega), if_neg (by omega), if_neg (by omega), if_neg (by omega),
        if_neg (by omega), if_pos (by omega), Nat.add_sub_cancel]
    · dsimp only
      rw [InBounds, InBounds, InBounds, toNat_byte (by omega), toNat_byte (by omega),
        toNat_byte (by omega)]
      refine ⟨⟨?_, ?_⟩, ⟨by omega, by omega⟩, ⟨by omega, by omega⟩, trivial⟩
      · split <;> omega
      · split <;> omega
    · show ((n / 262144 % 0x08 * 64 + (UInt8.ofNat (n / 4096 % 0x40 + 0x80)).toNat % 64) * 64 +
        (UInt8.ofNat (n / 64 % 0x40 + 0x80)).toNat % 64) * 64 +
        (UInt8.ofNat (n % 0x40 + 0x80)).toNat % 64 = c.toNat
      rw [toNat_byte (by omega), toNat_byte (by omega), toNat_byte (by omega)]
      omega

/-- A spelled character is read. -/
theorem Spelled.readChar_append {first : Lead} (h : Spelled c b tail first) :
    readChar b (tail ++ rest) = (some c, rest) := by
  rw [readChar, h.lead]
  dsimp only
  rw [h.count, readTail_append h.bounds, h.value, Char.ofNat_toNat]

/-- The start of a character at the end of the bytes. -/
theorem Spelled.readChar_cut {first : Lead} (h : Spelled c b (tail ++ more) first)
    (hmore : more ≠ []) : readChar b tail = (none, []) := by
  have hcount := h.count
  have hpos := List.length_pos_of_ne_nil hmore
  rw [List.length_append] at hcount
  rw [readChar, h.lead]
  exact readTail_cut (inBounds_append_left h.bounds) (by omega)

/-- A byte that only follows others. -/
def IsContinuation (b : UInt8) : Prop :=
  0x80 ≤ b.toNat ∧ b.toNat ≤ 0xbf

/-- No character starts with a continuation byte. -/
theorem readChar_of_continuation (h : IsContinuation b) : readChar b rest = (none, rest) := by
  have hlow := h.1
  have hhigh := h.2
  have hlead : lead b = none := by
    rw [lead, if_neg (by omega), if_pos (by omega)]
  rw [readChar, hlead]

/-- Bytes within the bounds are continuation bytes. -/
theorem InBounds.continuation (h : InBounds low high tail) (hlow : 0x80 ≤ low)
    (hhigh : high ≤ 0xbf) : ∀ b ∈ tail, IsContinuation b := by
  induction tail generalizing low high with
  | nil => exact fun b hb => absurd hb List.not_mem_nil
  | cons first tail ih =>
      intro b hb
      rcases List.mem_cons.mp hb with rfl | hb
      · exact ⟨Nat.le_trans hlow h.1.1, Nat.le_trans h.1.2 hhigh⟩
      · exact ih h.2 (Nat.le_refl _) (Nat.le_refl _) b hb

/-- Behind the first byte there are continuation bytes. -/
theorem Spelled.continuation {first : Lead} (h : Spelled c b tail first) :
    ∀ b ∈ tail, IsContinuation b := by
  have hfirst : 0x80 ≤ first.low ∧ first.high ≤ 0xbf := by
    have hlead := h.lead
    rw [Utf8.lead] at hlead
    split_ifs at hlead <;> cases hlead <;> simp
  exact h.bounds.continuation hfirst.1 hfirst.2

/-- The bytes of all other characters are not ASCII. -/
theorem le_of_mem_encodeChar (hc : 128 ≤ c.toNat) (hb : b ∈ String.utf8EncodeChar c) :
    128 ≤ b.toNat := by
  obtain ⟨byte, tail, first, hspelled⟩ := exists_spelled c
  rw [hspelled.encoded] at hb
  rcases List.mem_cons.mp hb with rfl | hb
  · by_contra hlt
    have hlead := hspelled.lead
    rw [lead, if_pos (by omega), Option.some.injEq] at hlead
    have hcount := hspelled.count
    have hvalue := hspelled.value
    rw [← hlead] at hcount hvalue
    rw [List.eq_nil_of_length_eq_zero hcount.symm] at hvalue
    have hsame : b.toNat = c.toNat := hvalue
    omega
  · exact (hspelled.continuation b hb).1

/-- An ASCII byte at the start of an encoded text is a character of the text. -/
theorem exists_of_encode_eq_cons (h : encode text = b :: rest) (hb : b.toNat < 128) :
    ∃ d more, text = d :: more ∧ d.toNat < 128 ∧ b = UInt8.ofNat d.toNat ∧ encode more = rest := by
  cases text with
  | nil => cases h
  | cons d more =>
      rw [encode_cons] at h
      have hd : d.toNat < 128 := by
        by_contra hge
        obtain ⟨byte, tail, first, hspelled⟩ := exists_spelled d
        rw [hspelled.encoded] at h
        have hbyte : byte = b := (List.cons.inj h).1
        have hle := le_of_mem_encodeChar (Nat.le_of_not_lt hge)
          (hspelled.encoded ▸ List.mem_cons_self : byte ∈ String.utf8EncodeChar d)
        rw [hbyte] at hle
        omega
      rw [encodeChar_of_ascii hd] at h
      obtain ⟨hbyte, hrest⟩ := List.cons.inj h
      exact ⟨d, more, rfl, hd, hbyte.symm, hrest⟩

/-! ## Decoding -/

/-- Reading a tail does not make the rest longer. -/
theorem length_readTail_le (rest : List UInt8) :
    (readTail count low high bits rest).2.length ≤ rest.length := by
  induction rest generalizing count low high bits with
  | nil => cases count <;> exact Nat.le_refl _
  | cons b rest ih =>
      cases count with
      | zero => exact Nat.le_refl _
      | succ count =>
          rw [readTail]
          split
          · exact Nat.le_succ_of_le ih
          · exact Nat.le_refl _

/-- Reading a character does not make the rest longer. -/
theorem length_readChar_le (b : UInt8) (rest : List UInt8) :
    (readChar b rest).2.length ≤ rest.length := by
  rw [readChar]
  split
  · exact length_readTail_le rest
  · exact Nat.le_refl _

/-- More fuel than bytes is enough, and any more gives the same. -/
theorem decodeFrom_fuel {fuel other : ℕ} (h : bytes.length ≤ fuel) (hother : bytes.length ≤ other) :
    decodeFrom fuel bytes = decodeFrom other bytes := by
  induction fuel generalizing other bytes with
  | zero =>
      rw [List.eq_nil_of_length_eq_zero (Nat.le_zero.mp h)]
      cases other <;> rfl
  | succ fuel ih =>
      cases bytes with
      | nil => cases other <;> rfl
      | cons b rest =>
          rw [List.length_cons] at h hother
          obtain ⟨other, rfl⟩ : ∃ fewer, other = fewer + 1 := ⟨other - 1, by omega⟩
          have hle := length_readChar_le b rest
          have hrest : decodeFrom fuel (readChar b rest).2 = decodeFrom other (readChar b rest).2 :=
            ih (by omega) (by omega)
          rw [decodeFrom, decodeFrom, hrest]

@[simp] theorem decodeLossy_nil : decodeLossy [] = [] :=
  rfl

/-- The first character and then the rest. -/
theorem decodeLossy_cons (b : UInt8) (rest : List UInt8) :
    decodeLossy (b :: rest) =
      (readChar b rest).1.getD replacement :: decodeLossy (readChar b rest).2 := by
  rw [decodeLossy, List.length_cons, decodeFrom, decodeLossy,
    decodeFrom_fuel (length_readChar_le b rest) (Nat.le_refl _)]

/-- The bytes of a character are read as the character. -/
theorem decodeLossy_encodeChar_append (c : Char) (rest : List UInt8) :
    decodeLossy (String.utf8EncodeChar c ++ rest) = c :: decodeLossy rest := by
  obtain ⟨b, tail, first, hspelled⟩ := exists_spelled c
  rw [hspelled.encoded, List.cons_append, decodeLossy_cons, hspelled.readChar_append,
    Option.getD_some]

/-- Encoded text is read back. -/
theorem decodeLossy_encode_append (text : List Char) (rest : List UInt8) :
    decodeLossy (encode text ++ rest) = text ++ decodeLossy rest := by
  induction text with
  | nil => rfl
  | cons c text ih =>
      rw [encode_cons, List.append_assoc, decodeLossy_encodeChar_append, ih, List.cons_append]

/-- A text is read back. -/
theorem decodeLossy_encode (text : List Char) : decodeLossy (encode text) = text := by
  have h := decodeLossy_encode_append text []
  rwa [decodeLossy_nil, List.append_nil, List.append_nil] at h

/-- Each continuation byte at the front becomes a replacement character. -/
theorem decodeLossy_continuations (h : ∀ b ∈ tail, IsContinuation b) (rest : List UInt8) :
    decodeLossy (tail ++ rest) = List.replicate tail.length replacement ++ decodeLossy rest := by
  induction tail with
  | nil => rfl
  | cons b tail ih =>
      rw [List.forall_mem_cons] at h
      rw [List.cons_append, decodeLossy_cons, readChar_of_continuation h.1, ih h.2]
      rfl

end Utf8
