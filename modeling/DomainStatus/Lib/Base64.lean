import DomainStatus.Lib.Fallible
import DomainStatus.Lib.Text

/-!
# Base64

The engines `URL_SAFE` and `URL_SAFE_NO_PAD` of the `base64` crate, on bytes and on the characters
of a text. `ofSextets_sextets` is the round trip on groups of six bits. A decoder takes no character
from outside of its alphabet, no bits behind the last byte, and no padding but the canonical one.
The engine `STANDARD` also encodes in the lines of Python's `base64.encodebytes`.
-/

namespace Base64

open Text

/-- The alphabet of URL-safe Base64. -/
def alphabet : List Char :=
  "ABCDEFGHIJKLMNOPQRSTUVWXYZabcdefghijklmnopqrstuvwxyz0123456789-_".toList

/-- The character for six bits. -/
def symbol (sextet : ℕ) : Char :=
  alphabet.getD sextet 'A'

/-- The six bits of a character. -/
def symbolValue (c : Char) : Option ℕ :=
  alphabet.findIdx? (· = c)

/-- The bits of the bytes in groups of six. The last group is filled up with zeros. -/
@[grind =] def sextets : List UInt8 → List ℕ
  | [] => []
  | [x] => [x.toNat / 4, x.toNat % 4 * 16]
  | [x, y] => [x.toNat / 4, x.toNat % 4 * 16 + y.toNat / 16, y.toNat % 16 * 4]
  | x :: y :: z :: rest =>
      x.toNat / 4 :: (x.toNat % 4 * 16 + y.toNat / 16) :: (y.toNat % 16 * 4 + z.toNat / 64) ::
        z.toNat % 64 :: sextets rest

/-- The bytes in groups of six bits, if the bits behind the last byte are zeros. -/
def ofSextets : List ℕ → Option (List UInt8)
  | [] => some []
  | [_] => none
  | [a, b] => if b % 16 = 0 then some [UInt8.ofNat (a * 4 + b / 16)] else none
  | [a, b, c] =>
      if c % 4 = 0 then some [UInt8.ofNat (a * 4 + b / 16), UInt8.ofNat (b % 16 * 16 + c / 4)]
      else none
  | a :: b :: c :: d :: rest =>
      (ofSextets rest).map fun bytes =>
        UInt8.ofNat (a * 4 + b / 16) :: UInt8.ofNat (b % 16 * 16 + c / 4) ::
          UInt8.ofNat (c % 4 * 64 + d) :: bytes

/-- The padding that fills up `count` symbols to groups of four. -/
def padding (count : ℕ) : List Char :=
  List.replicate ((4 - count % 4) % 4) '='

/-- URL-safe Base64, with padding or without it. -/
def encode (padded : Bool) (bytes : List UInt8) : List Char :=
  let symbols := (sextets bytes).map symbol
  if padded then symbols ++ padding symbols.length else symbols

/-- `URL_SAFE_NO_PAD.decode`. The padding character is none of the alphabet. -/
def decodeNoPad (text : List Char) : Option (List UInt8) :=
  (text.mapM symbolValue).bind ofSextets

/-- `URL_SAFE.decode`. The padding must be the canonical one. -/
def decodePadded (text : List Char) : Option (List UInt8) :=
  let symbols := trimEndMatches (· = '=') text
  if text = symbols ++ padding symbols.length then decodeNoPad symbols else none

variable {bytes : List UInt8} {text : List Char} {c : Char} {padded : Bool}

/-! ## Groups of six bits -/

/-- A byte is the one of its number. -/
theorem ofNat_eq {value : ℕ} {byte : UInt8} (h : value = byte.toNat) :
    UInt8.ofNat value = byte := by
  rw [h, UInt8.ofNat_toNat]

/-- The induction takes three bytes at a time, which are four groups. -/
theorem ofSextets_sextets (bytes : List UInt8) : ofSextets (sextets bytes) = some bytes := by
  induction bytes using sextets.induct with
  | case1 => rfl
  | case2 x =>
      have hbyte : UInt8.ofNat (x.toNat / 4 * 4 + x.toNat % 4 * 16 / 16) = x :=
        ofNat_eq (by omega)
      rw [sextets, ofSextets, if_pos (by omega), hbyte]
  | case3 x y =>
      have hy := y.toNat_lt
      have hfirst : UInt8.ofNat (x.toNat / 4 * 4 + (x.toNat % 4 * 16 + y.toNat / 16) / 16) = x :=
        ofNat_eq (by omega)
      have hsecond : UInt8.ofNat ((x.toNat % 4 * 16 + y.toNat / 16) % 16 * 16 +
          y.toNat % 16 * 4 / 4) = y := ofNat_eq (by omega)
      rw [sextets, ofSextets, if_pos (by omega), hfirst, hsecond]
  | case4 x y z rest ih =>
      have hy := y.toNat_lt
      have hz := z.toNat_lt
      have hfirst : UInt8.ofNat (x.toNat / 4 * 4 + (x.toNat % 4 * 16 + y.toNat / 16) / 16) = x :=
        ofNat_eq (by omega)
      have hsecond : UInt8.ofNat ((x.toNat % 4 * 16 + y.toNat / 16) % 16 * 16 +
          (y.toNat % 16 * 4 + z.toNat / 64) / 4) = y := ofNat_eq (by omega)
      have hthird : UInt8.ofNat ((y.toNat % 16 * 4 + z.toNat / 64) % 4 * 64 + z.toNat % 64) = z :=
        ofNat_eq (by omega)
      rw [sextets, ofSextets, ih, Option.map_some, hfirst, hsecond, hthird]

/-- Six bits are less than 64. -/
theorem sextets_lt (bytes : List UInt8) : ∀ sextet ∈ sextets bytes, sextet < 64 := by
  induction bytes using sextets.induct with
  | case1 => exact fun _ h => absurd h List.not_mem_nil
  | case2 x =>
      have hx := x.toNat_lt
      simp only [sextets, List.forall_mem_cons, List.not_mem_nil, false_implies, implies_true,
        and_true]
      omega
  | case3 x y =>
      have hx := x.toNat_lt
      have hy := y.toNat_lt
      simp only [sextets, List.forall_mem_cons, List.not_mem_nil, false_implies, implies_true,
        and_true]
      omega
  | case4 x y z rest ih =>
      have hx := x.toNat_lt
      have hy := y.toNat_lt
      have hz := z.toNat_lt
      simp only [sextets, List.forall_mem_cons]
      exact ⟨by omega, by omega, by omega, by omega, ih⟩

/-! ## Symbols -/

/-- A symbol stands for its six bits. -/
theorem symbolValue_symbol : ∀ sextet < 64, symbolValue (symbol sextet) = some sextet := by
  decide

/-- An index within a list gives one of its elements. -/
theorem getD_mem {values : List Char} {index : ℕ} (h : index < values.length) (default : Char) :
    values.getD index default ∈ values := by
  rw [List.getD_eq_getElem?_getD, List.getElem?_eq_getElem h]
  exact List.getElem_mem h

/-- Each symbol is in the alphabet. -/
theorem symbol_mem : ∀ sextet < 64, symbol sextet ∈ alphabet :=
  fun _ hsextet => getD_mem hsextet 'A'

/-- Symbols are read back one by one. -/
theorem mapM_symbolValue {values : List ℕ} (h : ∀ sextet ∈ values, sextet < 64) :
    (values.map symbol).mapM symbolValue = some values := by
  induction values with
  | nil => rfl
  | cons sextet values ih =>
      rw [List.forall_mem_cons] at h
      rw [List.map_cons, List.mapM_cons, symbolValue_symbol sextet h.1, ih h.2]
      rfl

/-- Decoding inverts encoding. -/
theorem decodeNoPad_encode (bytes : List UInt8) :
    decodeNoPad (encode false bytes) = some bytes := by
  rw [decodeNoPad, encode]
  simp only [Bool.false_eq_true, if_false, mapM_symbolValue (sextets_lt bytes), Option.bind_some,
    ofSextets_sextets]

/-- A text with a character from outside of the alphabet is not decoded. -/
theorem decodeNoPad_eq_none (hmem : c ∈ text) (hc : symbolValue c = none) :
    decodeNoPad text = none := by
  have hnone : text.mapM symbolValue = none := by
    induction text with
    | nil => exact absurd hmem List.not_mem_nil
    | cons first rest ih =>
        rw [List.mapM_cons]
        rcases List.mem_cons.mp hmem with rfl | hmem
        · rw [hc]
          rfl
        · rw [ih hmem]
          cases symbolValue first <;> rfl
  rw [decodeNoPad, hnone, Option.bind_none]

/-- A text without padding has symbols only. -/
theorem mem_symbols (h : c ∈ encode false bytes) : c ∈ alphabet := by
  obtain ⟨sextet, hsextet, rfl⟩ := List.mem_map.mp h
  exact symbol_mem sextet (sextets_lt bytes sextet hsextet)

/-- The padding stands behind the symbols. -/
theorem encode_padded (bytes : List UInt8) :
    encode true bytes = encode false bytes ++ padding (encode false bytes).length :=
  rfl

/-- A text has symbols and the padding only. -/
theorem mem_encode (h : c ∈ encode padded bytes) : c ∈ alphabet ∨ c = '=' := by
  cases padded with
  | false => exact Or.inl (mem_symbols h)
  | true =>
      rcases List.mem_append.mp h with h | h
      · exact Or.inl (mem_symbols h)
      · exact Or.inr (List.mem_replicate.mp h).2

/-- Padded texts can be read back. -/
theorem decodePadded_encode (bytes : List UInt8) :
    decodePadded (encode true bytes) = some bytes := by
  have htrim : trimEndMatches (· = '=') (encode true bytes) = encode false bytes := by
    rw [encode_padded, padding]
    exact trimEndMatches_append_replicate fun h => absurd (mem_symbols h) (by decide)
  rw [decodePadded, htrim, decodeNoPad_encode]
  exact if_pos rfl

/-- A padded text is refused by the decoder without padding, unless there is nothing to pad. -/
theorem decodeNoPad_encode_padded (bytes : List UInt8) :
    decodeNoPad (encode true bytes) = some bytes ∨ decodeNoPad (encode true bytes) = none := by
  rw [encode_padded]
  by_cases hpad : (4 - (encode false bytes).length % 4) % 4 = 0
  · left
    rw [padding, hpad, List.replicate_zero, List.append_nil, decodeNoPad_encode]
  · right
    have hmem : '=' ∈ padding (encode false bytes).length := List.mem_replicate.mpr ⟨hpad, rfl⟩
    exact decodeNoPad_eq_none (List.mem_append_right _ hmem) (by decide)

/-- The padded decoder refuses the same characters, but for the padding itself. -/
theorem decodePadded_eq_none (hmem : c ∈ text) (hc : symbolValue c = none) (hpad : c ≠ '=') :
    decodePadded text = none := by
  rw [decodePadded]
  split_ifs with h
  · rw [h, List.mem_append] at hmem
    refine decodeNoPad_eq_none (hmem.resolve_right fun hmem => ?_) hc
    exact hpad (List.mem_replicate.mp hmem).2
  · rfl

/-! ## The standard alphabet -/

/-- The alphabet of standard Base64. -/
def standardAlphabet : List Char :=
  "ABCDEFGHIJKLMNOPQRSTUVWXYZabcdefghijklmnopqrstuvwxyz0123456789+/".toList

/-- The character for six bits in standard Base64. -/
def standardSymbol (sextet : ℕ) : Char :=
  standardAlphabet.getD sextet 'A'

/-- `STANDARD.encode`. -/
def encodeStandard (bytes : List UInt8) : List Char :=
  let symbols := (sextets bytes).map standardSymbol
  symbols ++ padding symbols.length

/-- The six bits of a character of the standard alphabet. -/
def standardSymbolValue (c : Char) : Option ℕ :=
  standardAlphabet.findIdx? (· = c)

/-- `STANDARD_NO_PAD.decode`. -/
def decodeStandardNoPad (text : List Char) : Option (List UInt8) :=
  (text.mapM standardSymbolValue).bind ofSextets

/-- `STANDARD.decode`. The padding must be the canonical one. -/
def decodeStandard (text : List Char) : Option (List UInt8) :=
  let symbols := trimEndMatches (· = '=') text
  if text = symbols ++ padding symbols.length then decodeStandardNoPad symbols else none

/-- Consecutive pieces of a list. The last one may be shorter. -/
def pieces {α : Type*} (size : ℕ) (list : List α) : List (List α) :=
  (List.range ((list.length + size - 1) / size)).map fun i => (list.drop (i * size)).take size

/-- Python's `base64.encodebytes`: a line for each 57 bytes. -/
def encodebytes (bytes : List UInt8) : List Char :=
  (pieces 57 bytes).flatMap fun chunk => encodeStandard chunk ++ ['\n']

variable {first second : List UInt8}

/-- Bytes in groups of three are split group by group. -/
theorem sextets_append (h : 3 ∣ first.length) :
    sextets (first ++ second) = sextets first ++ sextets second := by
  induction first using sextets.induct with
  | case1 => rfl
  | case2 x => simp at h
  | case3 x y => simp at h
  | case4 x y z rest ih =>
      have hrest : 3 ∣ rest.length := by
        simp only [List.length_cons] at h
        omega
      simp only [List.cons_append, sextets, ih hrest]

/-- Three bytes are four groups of six bits, and what is left is rounded up. -/
theorem length_sextets (bytes : List UInt8) :
    (sextets bytes).length = (4 * bytes.length + 2) / 3 := by
  induction bytes using sextets.induct with
  | case1 => rfl
  | case2 x => simp [sextets]
  | case3 x y => simp [sextets]
  | case4 x y z rest ih =>
      simp only [sextets, List.length_cons, ih]
      omega

/-- A padded text has four characters for each three bytes, those that are begun included. -/
theorem length_encodeStandard (bytes : List UInt8) :
    (encodeStandard bytes).length = 4 * ((bytes.length + 2) / 3) := by
  rw [encodeStandard, List.length_append, padding, List.length_replicate, List.length_map,
    length_sextets]
  omega

/-- Base64 can be cut behind each third byte. -/
theorem encodeStandard_append (h : 3 ∣ first.length) :
    encodeStandard (first ++ second) = encodeStandard first ++ encodeStandard second := by
  have hlength := length_sextets first
  have hfirst : padding (sextets first).length = [] := by
    rw [padding, List.replicate_eq_nil_iff]
    omega
  have hpadding : padding ((sextets first).length + (sextets second).length) =
      padding (sextets second).length := by
    rw [padding, padding]
    congr 1
    omega
  simp only [encodeStandard, sextets_append h, List.map_append, List.length_append,
    List.length_map, hpadding, hfirst, List.append_nil, List.append_assoc]

/-- Each symbol is in the standard alphabet. -/
theorem standardSymbol_mem : ∀ sextet < 64, standardSymbol sextet ∈ standardAlphabet :=
  fun _ hsextet => getD_mem hsextet 'A'

/-- A standard symbol stands for its six bits. -/
theorem standardSymbolValue_standardSymbol :
    ∀ sextet < 64, standardSymbolValue (standardSymbol sextet) = some sextet := by
  decide

/-- Standard texts without padding can be read back. -/
theorem decodeStandardNoPad_symbols (bytes : List UInt8) :
    decodeStandardNoPad ((sextets bytes).map standardSymbol) = some bytes := by
  have hvalues : ((sextets bytes).map standardSymbol).mapM standardSymbolValue =
      some (sextets bytes) := by
    rw [List.mapM_map]
    refine (List.mapM_eq_some_map fun sextet hsextet => ?_).trans (congrArg some (List.map_id _))
    exact standardSymbolValue_standardSymbol sextet (sextets_lt bytes sextet hsextet)
  rw [decodeStandardNoPad, hvalues, Option.bind_some, ofSextets_sextets]

/-- A standard text without padding has symbols only. -/
theorem mem_standardSymbols (h : c ∈ (sextets bytes).map standardSymbol) :
    c ∈ standardAlphabet := by
  obtain ⟨sextet, hsextet, rfl⟩ := List.mem_map.mp h
  exact standardSymbol_mem sextet (sextets_lt bytes sextet hsextet)

/-- A standard text has symbols and the padding only. -/
theorem mem_encodeStandard (h : c ∈ encodeStandard bytes) : c ∈ standardAlphabet ∨ c = '=' := by
  rcases List.mem_append.mp h with h | h
  · exact Or.inl (mem_standardSymbols h)
  · exact Or.inr (List.mem_replicate.mp h).2

/-- Standard texts can be read back. -/
theorem decodeStandard_encodeStandard (bytes : List UInt8) :
    decodeStandard (encodeStandard bytes) = some bytes := by
  have htrim : trimEndMatches (· = '=') (encodeStandard bytes) =
      (sextets bytes).map standardSymbol := by
    rw [encodeStandard, padding]
    exact trimEndMatches_append_replicate fun h => absurd (mem_standardSymbols h) (by decide)
  rw [decodeStandard, htrim, decodeStandardNoPad_symbols]
  exact if_pos rfl

/-- A standard text is on one line. -/
theorem newline_not_mem_encodeStandard (bytes : List UInt8) : '\n' ∉ encodeStandard bytes := by
  intro hmem
  rcases List.mem_append.mp hmem with hmem | hmem
  · obtain ⟨sextet, hsextet, hsymbol⟩ := List.mem_map.mp hmem
    have hnewline := standardSymbol_mem sextet (sextets_lt bytes sextet hsextet)
    rw [hsymbol] at hnewline
    exact absurd hnewline (by decide)
  · exact absurd (List.mem_replicate.mp hmem).2 (by decide)

/-- The decoder with padding takes a text without it when there is nothing to pad. -/
theorem decodeStandard_symbols (bytes : List UInt8) :
    decodeStandard ((sextets bytes).map standardSymbol) = some bytes ∨
      decodeStandard ((sextets bytes).map standardSymbol) = none := by
  have htrim : trimEndMatches (· = '=') ((sextets bytes).map standardSymbol) =
      (sextets bytes).map standardSymbol := by
    have hsame : trimEndMatches (· = '=') ((sextets bytes).map standardSymbol ++
        List.replicate 0 '=') = (sextets bytes).map standardSymbol :=
      trimEndMatches_append_replicate fun h => absurd (mem_standardSymbols h) (by decide)
    rwa [List.replicate_zero, List.append_nil] at hsame
  rw [decodeStandard, htrim, decodeStandardNoPad_symbols]
  split_ifs
  · exact Or.inl rfl
  · exact Or.inr rfl

/-- An empty list has no pieces. -/
theorem pieces_nil {α : Type*} {size : ℕ} (hsize : 0 < size) :
    pieces size ([] : List α) = [] := by
  have hnone : (([] : List α).length + size - 1) / size = 0 :=
    Nat.div_eq_of_lt (by rw [List.length_nil]; omega)
  rw [pieces, hnone]
  rfl

/-- The first piece is as long as it can be. -/
theorem pieces_of_ne_nil {α : Type*} {size : ℕ} {list : List α} (hsize : 0 < size)
    (h : list ≠ []) : pieces size list = list.take size :: pieces size (list.drop size) := by
  have hpos := List.length_pos_of_ne_nil h
  have hcount : (list.length + size - 1) / size =
      ((list.drop size).length + size - 1) / size + 1 := by
    rw [List.length_drop]
    rcases Nat.lt_or_ge list.length size with hlt | hge
    · rw [Nat.sub_eq_zero_of_le (Nat.le_of_lt hlt), Nat.zero_add,
        Nat.div_eq_of_lt (Nat.sub_lt hsize Nat.one_pos),
        show list.length + size - 1 = (list.length - 1) + size by omega,
        Nat.add_div_right _ hsize, Nat.div_eq_of_lt (by omega)]
    · rw [show list.length + size - 1 = (list.length - size + size - 1) + size by omega,
        Nat.add_div_right _ hsize]
  rw [pieces, hcount, List.range_succ_eq_map, List.map_cons, List.map_map, Nat.zero_mul,
    List.drop_zero, pieces]
  refine congrArg _ (List.map_congr_left fun i _ => ?_)
  rw [Function.comp_apply, List.drop_drop, Nat.succ_mul, Nat.add_comm]

/-- Without bytes there is no line. -/
theorem encodebytes_nil : encodebytes [] = [] := by
  rw [encodebytes, pieces_nil (by decide)]
  rfl

/-- The first line has up to 57 bytes. -/
theorem encodebytes_of_ne_nil (h : bytes ≠ []) :
    encodebytes bytes =
      encodeStandard (bytes.take 57) ++ '\n' :: encodebytes (bytes.drop 57) := by
  rw [encodebytes, pieces_of_ne_nil (by decide) h, List.flatMap_cons, List.append_assoc,
    encodebytes]
  rfl

end Base64
