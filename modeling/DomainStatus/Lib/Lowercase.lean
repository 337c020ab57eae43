import DomainStatus.Lib.Occurrences

/-!
# Lower case of the Rust standard library

`str::to_lowercase` after Unicode 16, on lists of characters. Most characters have one character as
their lower case, `İ` has two, and a capital sigma depends on its neighbours. Read
`find_toLowercase` first: where a search in lower case finds its needle.
-/

namespace Text

/-- A run of characters, one every `step`, whose lower case lies at the same distance. -/
structure CaseRange where
  first : ℕ
  last : ℕ
  step : ℕ
  shift : ℤ
  deriving DecidableEq

/-- The range has the code point. -/
def CaseRange.covers (range : CaseRange) (code : ℕ) : Bool :=
  range.first ≤ code && code ≤ range.last && (code - range.first) % range.step == 0

/-- The characters with one other character as their lower case. -/
def caseRanges : List CaseRange :=
  [⟨0x41, 0x5a, 1, 32⟩, ⟨0xc0, 0xd6, 1, 32⟩, ⟨0xd8, 0xde, 1, 32⟩, ⟨0x100, 0x12e, 2, 1⟩,
    ⟨0x132, 0x136, 2, 1⟩, ⟨0x139, 0x147, 2, 1⟩, ⟨0x14a, 0x176, 2, 1⟩, ⟨0x178, 0x178, 1, -121⟩,
    ⟨0x179, 0x17d, 2, 1⟩, ⟨0x181, 0x181, 1, 210⟩, ⟨0x182, 0x184, 2, 1⟩, ⟨0x186, 0x186, 1, 206⟩,
    ⟨0x187, 0x187, 1, 1⟩, ⟨0x189, 0x18a, 1, 205⟩, ⟨0x18b, 0x18b, 1, 1⟩, ⟨0x18e, 0x18e, 1, 79⟩,
    ⟨0x18f, 0x18f, 1, 202⟩, ⟨0x190, 0x190, 1, 203⟩, ⟨0x191, 0x191, 1, 1⟩, ⟨0x193, 0x193, 1, 205⟩,
    ⟨0x194, 0x194, 1, 207⟩, ⟨0x196, 0x196, 1, 211⟩, ⟨0x197, 0x197, 1, 209⟩, ⟨0x198, 0x198, 1, 1⟩,
    ⟨0x19c, 0x19c, 1, 211⟩, ⟨0x19d, 0x19d, 1, 213⟩, ⟨0x19f, 0x19f, 1, 214⟩, ⟨0x1a0, 0x1a4, 2, 1⟩,
    ⟨0x1a6, 0x1a6, 1, 218⟩, ⟨0x1a7, 0x1a7, 1, 1⟩, ⟨0x1a9, 0x1a9, 1, 218⟩, ⟨0x1ac, 0x1ac, 1, 1⟩,
    ⟨0x1ae, 0x1ae, 1, 218⟩, ⟨0x1af, 0x1af, 1, 1⟩, ⟨0x1b1, 0x1b2, 1, 217⟩, ⟨0x1b3, 0x1b5, 2, 1⟩,
    ⟨0x1b7, 0x1b7, 1, 219⟩, ⟨0x1b8, 0x1b8, 1, 1⟩, ⟨0x1bc, 0x1bc, 1, 1⟩, ⟨0x1c4, 0x1c4, 1, 2⟩,
    ⟨0x1c5, 0x1c5, 1, 1⟩, ⟨0x1c7, 0x1c7, 1, 2⟩, ⟨0x1c8, 0x1c8, 1, 1⟩, ⟨0x1ca, 0x1ca, 1, 2⟩,
    ⟨0x1cb, 0x1db, 2, 1⟩, ⟨0x1de, 0x1ee, 2, 1⟩, ⟨0x1f1, 0x1f1, 1, 2⟩, ⟨0x1f2, 0x1f4, 2, 1⟩,
    ⟨0x1f6, 0x1f6, 1, -97⟩, ⟨0x1f7, 0x1f7, 1, -56⟩, ⟨0x1f8, 0x21e, 2, 1⟩,
    ⟨0x220, 0x220, 1, -130⟩, ⟨0x222, 0x232, 2, 1⟩, ⟨0x23a, 0x23a, 1, 10795⟩,
    ⟨0x23b, 0x23b, 1, 1⟩, ⟨0x23d, 0x23d, 1, -163⟩, ⟨0x23e, 0x23e, 1, 10792⟩,
    ⟨0x241, 0x241, 1, 1⟩, ⟨0x243, 0x243, 1, -195⟩, ⟨0x244, 0x244, 1, 69⟩, ⟨0x245, 0x245, 1, 71⟩,
    ⟨0x246, 0x24e, 2, 1⟩, ⟨0x370, 0x372, 2, 1⟩, ⟨0x376, 0x376, 1, 1⟩, ⟨0x37f, 0x37f, 1, 116⟩,
    ⟨0x386, 0x386, 1, 38⟩, ⟨0x388, 0x38a, 1, 37⟩, ⟨0x38c, 0x38c, 1, 64⟩, ⟨0x38e, 0x38f, 1, 63⟩,
    ⟨0x391, 0x3a1, 1, 32⟩, ⟨0x3a3, 0x3ab, 1, 32⟩, ⟨0x3cf, 0x3cf, 1, 8⟩, ⟨0x3d8, 0x3ee, 2, 1⟩,
    ⟨0x3f4, 0x3f4, 1, -60⟩, ⟨0x3f7, 0x3f7, 1, 1⟩, ⟨0x3f9, 0x3f9, 1, -7⟩, ⟨0x3fa, 0x3fa, 1, 1⟩,
    ⟨0x3fd, 0x3ff, 1, -130⟩, ⟨0x400, 0x40f, 1, 80⟩, ⟨0x410, 0x42f, 1, 32⟩, ⟨0x460, 0x480, 2, 1⟩,
    ⟨0x48a, 0x4be, 2, 1⟩, ⟨0x4c0, 0x4c0, 1, 15⟩, ⟨0x4c1, 0x4cd, 2, 1⟩, ⟨0x4d0, 0x52e, 2, 1⟩,
    ⟨0x531, 0x556, 1, 48⟩, ⟨0x10a0, 0x10c5, 1, 7264⟩, ⟨0x10c7, 0x10c7, 1, 7264⟩,
    ⟨0x10cd, 0x10cd, 1, 7264⟩, ⟨0x13a0, 0x13ef, 1, 38864⟩, ⟨0x13f0, 0x13f5, 1, 8⟩,
    ⟨0x1c89, 0x1c89, 1, 1⟩, ⟨0x1c90, 0x1cba, 1, -3008⟩, ⟨0x1cbd, 0x1cbf, 1, -3008⟩,
    ⟨0x1e00, 0x1e94, 2, 1⟩, ⟨0x1e9e, 0x1e9e, 1, -7615⟩, ⟨0x1ea0, 0x1efe, 2, 1⟩,
    ⟨0x1f08, 0x1f0f, 1, -8⟩, ⟨0x1f18, 0x1f1d, 1, -8⟩, ⟨0x1f28, 0x1f2f, 1, -8⟩,
    ⟨0x1f38, 0x1f3f, 1, -8⟩, ⟨0x1f48, 0x1f4d, 1, -8⟩, ⟨0x1f59, 0x1f5f, 2, -8⟩,
    ⟨0x1f68, 0x1f6f, 1, -8⟩, ⟨0x1f88, 0x1f8f, 1, -8⟩, ⟨0x1f98, 0x1f9f, 1, -8⟩,
    ⟨0x1fa8, 0x1faf, 1, -8⟩, ⟨0x1fb8, 0x1fb9, 1, -8⟩, ⟨0x1fba, 0x1fbb, 1, -74⟩,
    ⟨0x1fbc, 0x1fbc, 1, -9⟩, ⟨0x1fc8, 0x1fcb, 1, -86⟩, ⟨0x1fcc, 0x1fcc, 1, -9⟩,
    ⟨0x1fd8, 0x1fd9, 1, -8⟩, ⟨0x1fda, 0x1fdb, 1, -100⟩, ⟨0x1fe8, 0x1fe9, 1, -8⟩,
    ⟨0x1fea, 0x1feb, 1, -112⟩, ⟨0x1fec, 0x1fec, 1, -7⟩, ⟨0x1ff8, 0x1ff9, 1, -128⟩,
    ⟨0x1ffa, 0x1ffb, 1, -126⟩, ⟨0x1ffc, 0x1ffc, 1, -9⟩, ⟨0x2126, 0x2126, 1, -7517⟩,
    ⟨0x212a, 0x212a, 1, -8383⟩, ⟨0x212b, 0x212b, 1, -8262⟩, ⟨0x2132, 0x2132, 1, 28⟩,
    ⟨0x2160, 0x216f, 1, 16⟩, ⟨0x2183, 0x2183, 1, 1⟩, ⟨0x24b6, 0x24cf, 1, 26⟩,
    ⟨0x2c00, 0x2c2f, 1, 48⟩, ⟨0x2c60, 0x2c60, 1, 1⟩, ⟨0x2c62, 0x2c62, 1, -10743⟩,
    ⟨0x2c63, 0x2c63, 1, -3814⟩, ⟨0x2c64, 0x2c64, 1, -10727⟩, ⟨0x2c67, 0x2c6b, 2, 1⟩,
    ⟨0x2c6d, 0x2c6d, 1, -10780⟩, ⟨0x2c6e, 0x2c6e, 1, -10749⟩, ⟨0x2c6f, 0x2c6f, 1, -10783⟩,
    ⟨0x2c70, 0x2c70, 1, -10782⟩, ⟨0x2c72, 0x2c72, 1, 1⟩, ⟨0x2c75, 0x2c75, 1, 1⟩,
    ⟨0x2c7e, 0x2c7f, 1, -10815⟩, ⟨0x2c80, 0x2ce2, 2, 1⟩, ⟨0x2ceb, 0x2ced, 2, 1⟩,
    ⟨0x2cf2, 0x2cf2, 1, 1⟩, ⟨0xa640, 0xa66c, 2, 1⟩, ⟨0xa680, 0xa69a, 2, 1⟩,
    ⟨0xa722, 0xa72e, 2, 1⟩, ⟨0xa732, 0xa76e, 2, 1⟩, ⟨0xa779, 0xa77b, 2, 1⟩,
    ⟨0xa77d, 0xa77d, 1, -35332⟩, ⟨0xa77e, 0xa786, 2, 1⟩, ⟨0xa78b, 0xa78b, 1, 1⟩,
    ⟨0xa78d, 0xa78d, 1, -42280⟩, ⟨0xa790, 0xa792, 2, 1⟩, ⟨0xa796, 0xa7a8, 2, 1⟩,
    ⟨0xa7aa, 0xa7aa, 1, -42308⟩, ⟨0xa7ab, 0xa7ab, 1, -42319⟩, ⟨0xa7ac, 0xa7ac, 1, -42315⟩,
    ⟨0xa7ad, 0xa7ad, 1, -42305⟩, ⟨0xa7ae, 0xa7ae, 1, -42308⟩, ⟨0xa7b0, 0xa7b0, 1, -42258⟩,
    ⟨0xa7b1, 0xa7b1, 1, -42282⟩, ⟨0xa7b2, 0xa7b2, 1, -42261⟩, ⟨0xa7b3, 0xa7b3, 1, 928⟩,
    ⟨0xa7b4, 0xa7c2, 2, 1⟩, ⟨0xa7c4, 0xa7c4, 1, -48⟩, ⟨0xa7c5, 0xa7c5, 1, -42307⟩,
    ⟨0xa7c6, 0xa7c6, 1, -35384⟩, ⟨0xa7c7, 0xa7c9, 2, 1⟩, ⟨0xa7cb, 0xa7cb, 1, -42343⟩,
    ⟨0xa7cc, 0xa7cc, 1, 1⟩, ⟨0xa7d0, 0xa7d0, 1, 1⟩, ⟨0xa7d6, 0xa7da, 2, 1⟩,
    ⟨0xa7dc, 0xa7dc, 1, -42561⟩, ⟨0xa7f5, 0xa7f5, 1, 1⟩, ⟨0xff21, 0xff3a, 1, 32⟩,
    ⟨0x10400, 0x10427, 1, 40⟩, ⟨0x104b0, 0x104d3, 1, 40⟩, ⟨0x10570, 0x1057a, 1, 39⟩,
    ⟨0x1057c, 0x1058a, 1, 39⟩, ⟨0x1058c, 0x10592, 1, 39⟩, ⟨0x10594, 0x10595, 1, 39⟩,
    ⟨0x10c80, 0x10cb2, 1, 64⟩, ⟨0x10d50, 0x10d65, 1, 32⟩, ⟨0x118a0, 0x118bf, 1, 32⟩,
    ⟨0x16e40, 0x16e5f, 1, 32⟩, ⟨0x1e900, 0x1e921, 1, 34⟩]

/-- `char::to_lowercase`. -/
def lowercaseChar (c : Char) : List Char :=
  if c.toNat = 0x130 then ['i', Char.ofNat 0x307]
  else
    match caseRanges.find? fun range => range.covers c.toNat with
    | some range => [Char.ofNat (c.toNat + range.shift).toNat]
    | none => [c]

/-- The Unicode properties that only the lower case of a capital sigma asks for. -/
structure CaseProperties where
  isCased : Char → Bool
  isCaseIgnorable : Char → Bool

section

variable (properties : CaseProperties)

/-- A cased character follows, perhaps behind some that are ignored. -/
def caseIgnorableThenCased (text : List Char) : Bool :=
  match text.dropWhile properties.isCaseIgnorable with
  | [] => false
  | c :: _ => properties.isCased c

/-- The lower case of a capital sigma at the end of a word, and elsewhere. -/
def mapUppercaseSigma (before after : List Char) : Char :=
  if caseIgnorableThenCased properties before && !caseIgnorableThenCased properties after then 'ς'
  else 'σ'

/-- The lower case of a character behind the text `before`, which is given in reverse. -/
def lowercaseAt (before : List Char) (c : Char) (after : List Char) : List Char :=
  if c = 'Σ' then [mapUppercaseSigma properties before after] else lowercaseChar c

/-- The text in lower case, behind characters that were read before. -/
@[grind =] def toLowercaseAux (before : List Char) : List Char → List Char
  | [] => []
  | c :: after => lowercaseAt properties before c after ++ toLowercaseAux (c :: before) after

/-- `str::to_lowercase`. -/
def toLowercase (text : List Char) : List Char :=
  toLowercaseAux properties [] text

end

/-- The parts of a text before and behind the first occurrence of a needle, which is in lower case
and is searched for without regard to the case of ASCII letters. -/
def splitOnceIgnoringCase (needle : List Char) : List Char → Option (List Char × List Char)
  | [] => none
  | c :: rest =>
      if needle.isPrefixOf ((c :: rest).map Char.toLower) then
        some ([], (c :: rest).drop needle.length)
      else
        (splitOnceIgnoringCase needle rest).map fun (before, after) => (c :: before, after)

variable {properties : CaseProperties} {before after text needle : List Char} {c d : Char}

/-! ## Single characters -/

/-- ASCII letters have the usual lower case. -/
theorem lowercaseChar_of_ascii (h : c.toNat < 128) : lowercaseChar c = [c.toLower] := by
  have hall : ∀ n < 128, lowercaseChar (Char.ofNat n) = [(Char.ofNat n).toLower] := by
    decide +kernel
  have hc := hall c.toNat h
  rwa [Char.ofNat_toNat] at hc

/-- The images of a range are characters, and apart from the first range and the Kelvin sign none of
them is ASCII. -/
theorem caseRanges_image {range : CaseRange} (hmem : range ∈ caseRanges) :
    (range.last < 128 ∨ range = ⟨0x212a, 0x212a, 1, -8383⟩ ∨ 128 ≤ range.first + range.shift) ∧
      0 ≤ range.first + range.shift ∧
      (range.last + range.shift < 0xd800 ∨
        0xdfff < range.first + range.shift ∧ range.last + range.shift < 0x110000) := by
  have hall : ∀ range ∈ caseRanges,
      (range.last < 128 ∨ range = ⟨0x212a, 0x212a, 1, -8383⟩ ∨ 128 ≤ range.first + range.shift) ∧
        0 ≤ range.first + range.shift ∧
        (range.last + range.shift < 0xd800 ∨
          0xdfff < range.first + range.shift ∧ range.last + range.shift < 0x110000) := by
    decide +kernel
  exact hall range hmem

/-- A valid code point is that of its character. -/
theorem toNat_ofNat {code : ℕ} (h : code.isValidChar) : (Char.ofNat code).toNat = code := by
  have hvalid : Char.ofNat code = Char.ofNatAux code h := dif_pos h
  rw [hvalid]
  rfl

/-- The lower case of a character that is not ASCII. -/
theorem mem_lowercaseChar (h : 128 ≤ c.toNat) (hd : d ∈ lowercaseChar c) :
    128 ≤ d.toNat ∨ d = 'i' ∨ d = 'k' := by
  unfold lowercaseChar at hd
  split at hd
  · rcases List.mem_pair.mp hd with rfl | rfl
    · exact Or.inr (Or.inl rfl)
    · exact Or.inl (by decide)
  · cases hfind : List.find? (fun range => range.covers c.toNat) caseRanges with
    | some range =>
        rw [hfind] at hd
        dsimp only at hd
        rw [List.mem_singleton] at hd
        have hcovers := List.find?_some hfind
        simp only [CaseRange.covers, Bool.and_eq_true, decide_eq_true_eq] at hcovers
        obtain ⟨hsmall | rfl | hlarge, hpos, hvalid⟩ :=
          caseRanges_image (List.mem_of_find?_eq_some hfind)
        · omega
        · have hkelvin : c.toNat = 0x212a := by
            have hbounds := hcovers.1
            dsimp only at hbounds
            omega
          rw [hkelvin] at hd
          exact Or.inr (Or.inr hd)
        · left
          have hvalue : ((c.toNat + range.shift).toNat).isValidChar := by
            unfold Nat.isValidChar
            omega
          rw [hd, toNat_ofNat hvalue]
          omega
    | none =>
        rw [hfind] at hd
        dsimp only at hd
        rw [List.mem_singleton] at hd
        exact Or.inl (hd ▸ h)

/-- No character vanishes. -/
theorem lowercaseChar_ne_nil : lowercaseChar c ≠ [] := by
  unfold lowercaseChar
  split
  · exact List.cons_ne_nil _ _
  · split <;> exact List.cons_ne_nil _ _

/-- Beyond ASCII nothing changes. -/
theorem toLower_of_not_ascii (h : 128 ≤ c.toNat) : c.toLower = c := by
  unfold Char.toLower
  rw [dif_neg]
  intro hupper
  have hle : c.toNat ≤ 90 := hupper.2
  omega

/-- Lower case stays lower case. -/
theorem toLower_toLower (c : Char) : c.toLower.toLower = c.toLower := by
  by_cases h : c.toNat < 128
  · have hall : ∀ n < 128, (Char.ofNat n).toLower.toLower = (Char.ofNat n).toLower := by decide
    rw [← Char.ofNat_toNat c]
    exact hall c.toNat h
  · rw [toLower_of_not_ascii (Nat.not_lt.mp h), toLower_of_not_ascii (Nat.not_lt.mp h)]

/-! ## Positions -/

/-- The lower case of a character has the same number of bytes in every context. -/
theorem len_lowercaseAt : len (lowercaseAt properties before c after) = len (lowercaseChar c) := by
  unfold lowercaseAt
  split
  case isTrue hsigma =>
    subst hsigma
    unfold mapUppercaseSigma
    split <;> decide +kernel
  case isFalse => rfl

/-- A character is ASCII, and so is its lower case, or its lower case has at most `i` and `k` of the
ASCII characters. -/
theorem lowercaseAt_cases (properties : CaseProperties) (before : List Char) (c : Char)
    (after : List Char) :
    c.toNat < 128 ∧ lowercaseAt properties before c after = [c.toLower] ∨
      128 ≤ c.toNat ∧ lowercaseAt properties before c after ≠ [] ∧
        ∀ d ∈ lowercaseAt properties before c after, 128 ≤ d.toNat ∨ d = 'i' ∨ d = 'k' := by
  unfold lowercaseAt
  split
  case isTrue hsigma =>
    subst hsigma
    refine Or.inr ⟨by decide, List.cons_ne_nil _ _, fun d hd => Or.inl ?_⟩
    rw [List.mem_singleton.mp hd, mapUppercaseSigma]
    split <;> decide
  case isFalse =>
    rcases Nat.lt_or_ge c.toNat 128 with hascii | hother
    · exact Or.inl ⟨hascii, lowercaseChar_of_ascii hascii⟩
    · exact Or.inr ⟨hother, lowercaseChar_ne_nil, fun d => mem_lowercaseChar hother⟩

/-- The lower case of a start of the text is as long as the start is on its own. -/
theorem len_toLowercaseAux (other : List Char) :
    len (toLowercaseAux properties before text) = len (toLowercaseAux properties other text) := by
  induction text generalizing before other with
  | nil => rfl
  | cons c rest ih =>
      rw [toLowercaseAux, toLowercaseAux, len_append, len_append, len_lowercaseAt, len_lowercaseAt,
        ih (c :: other)]

/-- The bytes of the first character in lower case and those of the rest. -/
theorem len_toLowercase_cons :
    len (toLowercase properties (c :: text)) =
      len (lowercaseChar c) + len (toLowercase properties text) := by
  rw [toLowercase, toLowercaseAux, len_append, len_lowercaseAt, len_toLowercaseAux [], toLowercase]

/-- ASCII text has the lower case of its letters. -/
theorem toLowercase_of_ascii (h : ∀ c ∈ text, c.toNat < 128) :
    toLowercase properties text = text.map Char.toLower := by
  have haux : ∀ before, toLowercaseAux properties before text = text.map Char.toLower := by
    induction text with
    | nil => exact fun before => rfl
    | cons c rest ih =>
        intro before
        have hc := h c List.mem_cons_self
        rcases lowercaseAt_cases properties before c rest with ⟨-, hlower⟩ | ⟨hother, -⟩
        · rw [toLowercaseAux, hlower, ih fun d hd => h d (List.mem_cons_of_mem _ hd)]
          rfl
        · omega
  exact haux []

/-! ## Searches -/

/-- A needle of ASCII characters without `i` and `k`, which no other characters have in their lower
case. -/
def AsciiNeedle (needle : List Char) : Prop :=
  ∀ c ∈ needle, c.toNat < 128 ∧ c ≠ 'i' ∧ c ≠ 'k'

instance (needle : List Char) : Decidable (AsciiNeedle needle) :=
  List.decidableBAll (fun c : Char => c.toNat < 128 ∧ c ≠ 'i' ∧ c ≠ 'k') needle

/-- A needle has none of the characters that other characters turn into. -/
theorem AsciiNeedle.ne (h : AsciiNeedle needle) (hd : d ∈ needle)
    (hc : 128 ≤ c.toNat ∨ c = 'i' ∨ c = 'k') : d ≠ c := by
  obtain ⟨hascii, hi, hk⟩ := h d hd
  rintro rfl
  rcases hc with hother | hc | hc
  · omega
  · exact hi hc
  · exact hk hc

/-- At a character, the needle stands in lower case exactly if it stands in the text without regard
to the case of ASCII letters. -/
theorem isPrefixOf_toLowercaseAux (h : AsciiNeedle needle) :
    needle.isPrefixOf (toLowercaseAux properties before text) =
      needle.isPrefixOf (text.map Char.toLower) := by
  induction needle generalizing before text with
  | nil => simp
  | cons first needle ih =>
      cases text with
      | nil => rfl
      | cons c rest =>
          rw [toLowercaseAux, List.map_cons]
          rcases lowercaseAt_cases properties before c rest with ⟨-, hlower⟩ | ⟨hother, hne, hmem⟩
          · rw [hlower]
            show (first == c.toLower && _) = (first == c.toLower && _)
            rw [List.append_eq, List.nil_append, ih fun d hd => h d (List.mem_cons_of_mem _ hd)]
          · -- The lower case of the character starts with no character of the needle.
            obtain ⟨d, block, hblock⟩ := List.exists_cons_of_ne_nil hne
            have hfirst : first ≠ d := h.ne List.mem_cons_self (hmem d (by simp [hblock]))
            have hfirst' : first ≠ c.toLower := by
              rw [toLower_of_not_ascii hother]
              exact h.ne List.mem_cons_self (Or.inl hother)
            rw [hblock]
            show (first == d && _) = (first == c.toLower && _)
            rw [beq_false_of_ne hfirst, beq_false_of_ne hfirst', Bool.false_and, Bool.false_and]

/-- The search in lower case finds the first occurrence in the text without regard to the case of
ASCII letters, at the length of the lower case before it. -/
theorem find_toLowercase (h : AsciiNeedle needle) (hne : needle ≠ []) :
    find needle (toLowercase properties text) =
      (splitOnceIgnoringCase needle text).map fun parts =>
        len (toLowercase properties parts.1) := by
  have haux : ∀ before, find needle (toLowercaseAux properties before text) =
      (splitOnceIgnoringCase needle text).map fun parts =>
        len (toLowercase properties parts.1) := by
    induction text with
    | nil => exact fun before => if_neg hne
    | cons c rest ih =>
        intro before
        obtain ⟨first, tail, rfl⟩ := List.exists_cons_of_ne_nil hne
        have hlead : (first :: tail).isPrefixOf (toLowercaseAux properties before (c :: rest)) =
            (first :: tail).isPrefixOf ((c :: rest).map Char.toLower) :=
          isPrefixOf_toLowercaseAux h
        rw [splitOnceIgnoringCase, ← hlead, toLowercaseAux]
        rcases lowercaseAt_cases properties before c rest with
          ⟨hascii, hlower⟩ | ⟨-, hblock, hmem⟩
        · rw [hlower, List.singleton_append, find]
          split
          · rfl
          · rw [ih, Option.map_map, Option.map_map]
            refine congrFun (congrArg Option.map (funext fun parts => ?_)) _
            show c.toLower.utf8Size + _ = len (toLowercase properties (c :: parts.1))
            rw [len_toLowercase_cons, lowercaseChar_of_ascii hascii, len_cons, len_nil,
              Nat.add_zero]
        · have hfirst : first ∉ lowercaseAt properties before c rest := fun hd =>
            h.ne List.mem_cons_self (hmem first hd) rfl
          obtain ⟨d, block, hd⟩ := List.exists_cons_of_ne_nil hblock
          have hlead' : (first :: tail).isPrefixOf (lowercaseAt properties before c rest ++
              toLowercaseAux properties (c :: before) rest) = false := by
            have hne' : first ≠ d := fun heq => hfirst (by rw [hd, heq]; exact List.mem_cons_self)
            rw [hd]
            show (first == d && _) = false
            rw [beq_false_of_ne hne', Bool.false_and]
          rw [find_append_of_not_mem hfirst, hlead', if_neg Bool.false_ne_true, ih, Option.map_map,
            Option.map_map]
          refine congrFun (congrArg Option.map (funext fun parts => ?_)) _
          show len (lowercaseAt properties before c rest) + _ =
            len (toLowercase properties (c :: parts.1))
          rw [len_toLowercase_cons, len_lowercaseAt]
  exact haux []

/-- The parts with the occurrence between them are the text. -/
theorem splitOnceIgnoringCase_spec
    (h : splitOnceIgnoringCase needle text = some (before, after)) :
    ∃ marker, text = before ++ marker ++ after ∧ marker.map Char.toLower = needle := by
  induction text generalizing before with
  | nil => cases h
  | cons c rest ih =>
      rw [splitOnceIgnoringCase] at h
      split at h
      case isTrue hlead =>
        obtain ⟨rfl, rfl⟩ := Prod.mk.inj (Option.some.inj h)
        refine ⟨(c :: rest).take needle.length, ?_, ?_⟩
        · rw [List.nil_append, List.take_append_drop]
        · rw [List.map_take]
          exact (List.prefix_iff_eq_take.mp (List.isPrefixOf_iff_prefix.mp hlead)).symm
      case isFalse =>
        obtain ⟨parts, hrest, hparts⟩ := Option.map_eq_some_iff.mp h
        obtain ⟨rfl, rfl⟩ := Prod.mk.inj hparts
        obtain ⟨marker, rfl, hmarker⟩ := ih hrest
        exact ⟨marker, rfl, hmarker⟩

/-- Only upper case letters change. -/
theorem eq_of_toLower_eq (hd : d.isAlpha = false) (h : c.toLower = d) : c = d := by
  rcases Nat.lt_or_ge c.toNat 128 with hascii | hother
  · have hall : ∀ n < 128, (Char.ofNat n).toLower.isAlpha = false →
        Char.ofNat n = (Char.ofNat n).toLower := by
      decide +kernel
    have hc := hall c.toNat hascii
    rw [Char.ofNat_toNat] at hc
    rw [← h] at hd ⊢
    exact hc hd
  · rwa [toLower_of_not_ascii hother] at h

end Text
