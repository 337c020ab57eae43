import DomainStatus.Lib.Text

/-!
# Strict-Transport-Security headers

`parse_hsts_directive` of `src/security/hsts.rs`, and how headers are written. Read
`parse_hsts_directive_inverts` first: what is written is what is read, in any letter case, order and
spacing, unless an unknown directive in front looks like the name of the header.
-/

namespace DomainStatus.Security

open Text

/-- What a header asks for. -/
structure HstsDirectives where
  maxAge : Option ℕ := none
  includeSubdomains : Bool := false
  preload : Bool := false
  deriving DecidableEq

/-! ## Normalizing -/

/-- The text between two quotes of one kind. -/
def stripMatchingQuotes (s : List Char) : Option (List Char) :=
  match s with
  | [] => none
  | [_] => none
  | first :: rest =>
      if (first = '"' ∧ rest.getLast? = some '"') ∨ (first = '\'' ∧ rest.getLast? = some '\'') then
        some rest.dropLast
      else none

/-- `PREFIX`. -/
def hstsHeaderName : String := "strict-transport-security:"

/-- The text starts with the name of the header. -/
def startsWithHeaderName (s : List Char) : Bool :=
  hstsHeaderName.toList.isPrefixOf (s.map Char.toLower)

/-- The value without blanks and quotes around it. -/
def normalizeHstsValue (value : List Char) : List Char :=
  let s := trimChars value
  let s := match stripMatchingQuotes s with
    | some unquoted => trimChars unquoted
    | none => s
  if startsWithHeaderName s then trimChars (s.drop hstsHeaderName.length) else s

/-! ## The number of `max-age` -/

/-- `char::is_ascii_whitespace`. -/
def isAsciiWhitespace (c : Char) : Bool :=
  c = ' ' || c = '\t' || c = '\n' || c = '\x0c' || c = '\r'

/-- `raw.trim().trim_matches('"').trim()`. -/
def trimMaxAge (raw : List Char) : List Char :=
  trimChars (trimEndMatches (· = '"') ((trimChars raw).dropWhile (· = '"')))

/-- The loop of `parse_max_age_number`. -/
def maxAgeDigits (digits : List Char) : List Char → List Char
  | [] => digits
  | c :: rest =>
      if c.isDigit then maxAgeDigits (digits ++ [c]) rest
      else if c = ',' ∨ c = '_' then maxAgeDigits digits rest
      else if isAsciiWhitespace c then
        if digits = [] then maxAgeDigits digits rest else digits
      else digits

/-- Digits as an `u64`, if they fit. -/
def parseU64 (digits : List Char) : Option ℕ :=
  if digitsValue digits < 2 ^ 64 then some (digitsValue digits) else none

/-- The seconds of a `max-age`, if they fit into a `u64`. -/
def parseMaxAgeNumber (raw : List Char) : Option ℕ :=
  let digits := maxAgeDigits [] (trimMaxAge raw)
  if digits = [] then none else parseU64 digits

/-- The loop of `remainder_after_max_age_number`. -/
def skipMaxAgeNumber (seenDigit : Bool) : List Char → Option (List Char)
  | [] => none
  | c :: rest =>
      if c.isDigit then skipMaxAgeNumber true rest
      else if c = ',' ∨ c = '_' then skipMaxAgeNumber seenDigit rest
      else if isAsciiWhitespace c then
        if seenDigit then some (c :: rest) else skipMaxAgeNumber seenDigit rest
      else some (c :: rest)

/-- What follows the comma behind the number of a `max-age`. -/
def remainderAfterMaxAgeNumber (raw : List Char) : Option (List Char) :=
  skipMaxAgeNumber false (trimMaxAge raw)

/-! ## Segments -/

/-- `str::eq_ignore_ascii_case`, on the characters of a string. -/
def equalsIgnoreCase (text : List Char) (name : String) : Bool :=
  eqIgnoreAsciiCase (String.ofList text) name

/-- The name in front of the first `=` and the value behind it. -/
def splitDirectiveNameValue (segment : List Char) : List Char × Option (List Char) :=
  match splitOnce '=' segment with
  | some (name, value) => (trimChars name, some value)
  | none => (trimChars segment, none)

/-- Sets the flag of a name. Another name changes nothing. -/
def applyFlagName (name : List Char) (result : HstsDirectives) : HstsDirectives :=
  if equalsIgnoreCase name "includesubdomains" then { result with includeSubdomains := true }
  else if equalsIgnoreCase name "preload" then { result with preload := true }
  else result

/-- A part between commas behind the number. -/
def applyTrailingPart (result : HstsDirectives) (part : List Char) : HstsDirectives :=
  let name := trimChars part
  if name = [] ∨ name.head?.any Char.isDigit then result else applyFlagName name result

/-- The flags that commas separate from a `max-age`. -/
def applyTrailingCommaFlags (rawAge : List Char) (result : HstsDirectives) : HstsDirectives :=
  match remainderAfterMaxAgeNumber rawAge with
  | none => result
  | some leftover => (leftover.splitOn ',').foldl applyTrailingPart result

/-- The body of the loop over the segments. -/
def applyHstsSegment (segment : List Char) (result : HstsDirectives) : HstsDirectives :=
  let segment := trimChars segment
  if segment = [] then result
  else
    let (name, value) := splitDirectiveNameValue segment
    if equalsIgnoreCase name "max-age" ∨ equalsIgnoreCase name "maxage" then
      match value with
      | some raw => applyTrailingCommaFlags raw { result with maxAge := parseMaxAgeNumber raw }
      | none => result
    else applyFlagName name result

/-- What a header asks for, read segment by segment. -/
def parseHstsDirective (value : List Char) : HstsDirectives :=
  ((normalizeHstsValue value).splitOn ';').foldl (fun result segment =>
    applyHstsSegment segment result) {}

/-! ## How headers are written -/

/-- The flags of a header. -/
inductive HstsFlag where
  | includeSubDomains | preload
  deriving DecidableEq

/-- The name of a flag. -/
def HstsFlag.name : HstsFlag → String
  | includeSubDomains => "includeSubDomains"
  | preload => "preload"

/-- The directives of a header. The flags of `max-age` are those behind it in the same segment. -/
inductive HstsDirective where
  | maxAge (value : ℕ) (flags : List HstsFlag)
  | flag (flag : HstsFlag)
  | unknown
  deriving DecidableEq

/-- The flags that a directive sets. -/
def HstsDirective.flags : HstsDirective → List HstsFlag
  | maxAge _ flags => flags
  | flag one => [one]
  | unknown => []

/-- A number in decimal digits. -/
structure WritesNumber (value : ℕ) (digits : List Char) : Prop where
  ne_nil : digits ≠ []
  isDigit : ∀ c ∈ digits, c.isDigit = true
  value_eq : digitsValue digits = value

/-- The decimal digits of a number write it. -/
theorem writesNumber_repr (value : ℕ) : WritesNumber value (Nat.repr value).toList := by
  exact ⟨repr_ne_nil value, fun c hc => isDigit_of_mem_repr hc, digitsValue_repr value⟩

/-- A flag in any letter case, with whitespace around it. -/
inductive WritesFlag (flag : HstsFlag) : List Char → Prop where
  | mk (before name behind) : Blank before → Blank behind →
      equalsIgnoreCase name flag.name = true → WritesFlag flag (before ++ name ++ behind)

/-- A directive between semicolons. -/
inductive WritesDirective : HstsDirective → List Char → Prop where
  | maxAge (value flags before name left right digits behind parts) :
      Blank before → Blank left → Blank right → Blank behind →
      equalsIgnoreCase name "max-age" = true → WritesNumber value digits →
      List.Forall₂ WritesFlag flags parts →
      WritesDirective (.maxAge value flags) (before ++ (name ++ (left ++ '=' ::
        (right ++ (digits ++ (behind ++ parts.flatMap (',' :: ·)))))))
  | flag (flag text) : WritesFlag flag text → WritesDirective (.flag flag) text
  | unknown (text) : ';' ∉ text → '"' ∉ text → '\'' ∉ text →
      (∀ known ∈ ["max-age", "maxage", "includeSubDomains", "preload"],
        equalsIgnoreCase (trimChars (text.takeWhile (· ≠ '='))) known = false) →
      WritesDirective .unknown text

/-- Directives with semicolons between them, with the name of the header in front or without. -/
inductive WritesValue (directives : List HstsDirective) : Bool → List Char → Prop where
  | bare (texts) : List.Forall₂ WritesDirective directives texts →
      WritesValue directives false ([';'].intercalate texts)
  | named (texts before name) : Blank before → equalsIgnoreCase name hstsHeaderName = true →
      List.Forall₂ WritesDirective directives texts →
      WritesValue directives true (before ++ (name ++ [';'].intercalate texts))

/-- A value with or without quotes around it. -/
inductive Quotes (value : List Char) : List Char → Prop where
  | plain : Quotes value value
  | quoted (before quote behind) : Blank before → Blank behind → quote = '"' ∨ quote = '\'' →
      Quotes value (before ++ quote :: (value ++ quote :: behind))

/-- What a header with one number and some flags says. -/
def saidBy (value : ℕ) (flags : List HstsFlag) : HstsDirectives where
  maxAge := if value < 2 ^ 64 then some value else none
  includeSubdomains := .includeSubDomains ∈ flags
  preload := .preload ∈ flags

/-! ## Names -/

/-- A character that no name has: whitespace, a digit or one with a meaning of its own. -/
def isMark (c : Char) : Bool :=
  isWhitespace c || c.isDigit || [';', ',', '=', '_', '"', '\''].contains c

/-- A mark has no other case. -/
theorem toLower_of_isMark {c : Char} (h : isMark c = true) : c.toLower = c := by
  have hupper : ¬ (c.val ≥ 'A'.val ∧ c.val ≤ 'Z'.val) := by
    intro hrange
    have hlow : 65 ≤ c.toNat := UInt32.le_iff_toNat_le.mp hrange.1
    have hhigh : c.toNat ≤ 90 := UInt32.le_iff_toNat_le.mp hrange.2
    have hdigit : c.isDigit = true → c.toNat ≤ 57 := by
      intro hdigit
      simp only [Char.isDigit, ge_iff_le, Bool.and_eq_true, decide_eq_true_eq] at hdigit
      exact UInt32.le_iff_toNat_le.mp hdigit.2
    simp only [isMark, isWhitespace, Bool.or_eq_true, Bool.and_eq_true, decide_eq_true_eq,
      beq_iff_eq, List.contains_eq_mem, List.mem_cons, List.not_mem_nil, or_false] at h
    rcases h with (h | h) | h
    · omega
    · exact absurd (hdigit h) (by omega)
    · rcases h with rfl | rfl | rfl | rfl | rfl | rfl <;> revert hlow hhigh <;> decide
  exact dif_neg hupper

/-- Texts that are equal without case have the same lower case. -/
theorem map_toLower_of_equalsIgnoreCase {text : List Char} {name : String}
    (h : equalsIgnoreCase text name = true) :
    text.map Char.toLower = name.toList.map Char.toLower := by
  simpa [equalsIgnoreCase, eqIgnoreAsciiCase] using h

/-- A text that is a name but for the letter case has no marks, as the name has none. -/
theorem isMark_of_equalsIgnoreCase {text : List Char} {name : String}
    (h : equalsIgnoreCase text name = true)
    (hname : (name.toList.map Char.toLower).all fun c => !isMark c) :
    ∀ c ∈ text, isMark c = false := by
  have hsame := map_toLower_of_equalsIgnoreCase h
  intro c hc
  by_contra hmark
  rw [Bool.not_eq_false] at hmark
  have hlower : c ∈ name.toList.map Char.toLower := by
    rw [← hsame, ← toLower_of_isMark hmark]
    exact List.mem_map_of_mem hc
  have hnot := List.all_eq_true.mp hname c hlower
  rw [hmark] at hnot
  cases hnot

/-- What equals a name is not empty. -/
theorem ne_nil_of_equalsIgnoreCase {text : List Char} {name : String}
    (h : equalsIgnoreCase text name = true) (hname : name.toList ≠ []) : text ≠ [] := by
  have hsame := map_toLower_of_equalsIgnoreCase h
  intro hnil
  rw [hnil] at hsame
  exact hname (List.map_eq_nil_iff.mp hsame.symm)

/-- A text that equals a name is compared as the name is. -/
theorem equalsIgnoreCase_congr {text : List Char} {name other : String}
    (h : equalsIgnoreCase text name = true) :
    equalsIgnoreCase text other =
      (name.toList.map Char.toLower == other.toList.map Char.toLower) := by
  rw [equalsIgnoreCase, eqIgnoreAsciiCase, String.toList_ofList, map_toLower_of_equalsIgnoreCase h]

/-- The name of the directive may be written in lower case. -/
theorem equalsIgnoreCase_includeSubDomains (text : List Char) :
    equalsIgnoreCase text "includeSubDomains" = equalsIgnoreCase text "includesubdomains" := by
  have hlower : "includeSubDomains".toList.map Char.toLower =
      "includesubdomains".toList.map Char.toLower := by decide
  rw [equalsIgnoreCase, equalsIgnoreCase, eqIgnoreAsciiCase, eqIgnoreAsciiCase, hlower]

/-- What is no mark is different from each mark. -/
theorem ne_of_isMark {c mark : Char} (h : isMark c = false) (hmark : isMark mark = true) :
    c ≠ mark := by
  intro heq
  rw [heq, hmark] at h
  cases h

/-- A text without marks has no mark. -/
theorem not_mem_of_isMark {text : List Char} {c : Char}
    (h : ∀ c ∈ text, isMark c = false) (hc : isMark c = true) : c ∉ text := by
  intro hmem
  exact ne_of_isMark (h c hmem) hc rfl

/-- What is no mark is no blank. -/
theorem isWhitespace_of_isMark {c : Char} (h : isMark c = false) : isWhitespace c = false := by
  rw [isMark, Bool.or_eq_false_iff, Bool.or_eq_false_iff] at h
  exact h.1.1

/-- What is no mark is no digit. -/
theorem isDigit_of_isMark {c : Char} (h : isMark c = false) : c.isDigit = false := by
  rw [isMark, Bool.or_eq_false_iff, Bool.or_eq_false_iff] at h
  exact h.1.2

/-! ## Flags -/

namespace HstsFlag

/-- Sets a flag. -/
def set (result : HstsDirectives) : HstsFlag → HstsDirectives
  | includeSubDomains => { result with includeSubdomains := true }
  | preload => { result with preload := true }

/-- The name of a flag has no marks. -/
theorem isMark_name (flag : HstsFlag) {name : List Char}
    (h : equalsIgnoreCase name flag.name = true) : ∀ c ∈ name, isMark c = false := by
  refine isMark_of_equalsIgnoreCase h ?_
  cases flag <;> decide

/-- The name of a flag is not empty. -/
theorem name_ne_nil (flag : HstsFlag) {name : List Char}
    (h : equalsIgnoreCase name flag.name = true) : name ≠ [] := by
  refine ne_nil_of_equalsIgnoreCase h ?_
  cases flag <;> decide

/-- The name of a flag sets it. -/
theorem applyFlagName_eq (flag : HstsFlag) {name : List Char} (result : HstsDirectives)
    (h : equalsIgnoreCase name flag.name = true) : applyFlagName name result = flag.set result := by
  rw [applyFlagName, equalsIgnoreCase_congr h, equalsIgnoreCase_congr h]
  cases flag <;> rfl

end HstsFlag

namespace WritesFlag

variable {flag : HstsFlag} {text : List Char}

/-- The trimmed text is the name of the flag. -/
theorem trimChars_eq (h : WritesFlag flag text) :
    equalsIgnoreCase (trimChars text) flag.name = true := by
  obtain ⟨before, name, behind, hbefore, hbehind, hname⟩ := h
  have hmarks := flag.isMark_name hname
  rw [trimChars_append_blank hbehind, blank_append_trimChars hbefore,
    trimChars_eq_self fun c hc => isWhitespace_of_isMark (hmarks c hc)]
  exact hname

/-- Only whitespace and letters occur in a flag. -/
theorem not_mem (h : WritesFlag flag text) {c : Char} (hmark : isMark c = true)
    (hblank : isWhitespace c = false) : c ∉ text := by
  obtain ⟨before, name, behind, hbefore, hbehind, hname⟩ := h
  rw [List.mem_append, List.mem_append, not_or, not_or]
  exact ⟨⟨hbefore.not_mem hblank, not_mem_of_isMark (flag.isMark_name hname) hmark⟩,
    hbehind.not_mem hblank⟩

/-- A flag behind a comma sets it. -/
theorem applyTrailingPart_eq (h : WritesFlag flag text) (result : HstsDirectives) :
    applyTrailingPart result text = flag.set result := by
  have hname := h.trimChars_eq
  have hmarks := flag.isMark_name hname
  rw [applyTrailingPart, if_neg, flag.applyFlagName_eq result hname]
  intro hskip
  rcases hskip with hnil | hdigit
  · exact flag.name_ne_nil hname hnil
  · cases htext : trimChars text with
    | nil => exact flag.name_ne_nil hname htext
    | cons c rest =>
        rw [htext] at hdigit hmarks
        have hnot := isDigit_of_isMark (hmarks c List.mem_cons_self)
        rw [List.head?_cons, Option.any_some, hnot] at hdigit
        cases hdigit

/-- A flag as a segment sets it. -/
theorem applyHstsSegment_eq (h : WritesFlag flag text) (result : HstsDirectives) :
    applyHstsSegment text result = flag.set result := by
  have hname := h.trimChars_eq
  have hmarks := flag.isMark_name hname
  have hsplit : splitDirectiveNameValue (trimChars text) = (trimChars text, none) := by
    rw [splitDirectiveNameValue, splitOnce_eq_none (not_mem_of_isMark hmarks (by decide)),
      trimChars_trimChars]
  simp only [applyHstsSegment, if_neg (flag.name_ne_nil hname), hsplit]
  rw [if_neg, flag.applyFlagName_eq result hname]
  rw [equalsIgnoreCase_congr hname, equalsIgnoreCase_congr hname]
  cases flag <;> decide

end WritesFlag

/-! ## The number and what follows it -/

section MaxAge

variable {digits text behind : List Char} {parts : List (List Char)} {flags : List HstsFlag}

/-- A blank is no digit. -/
theorem isDigit_of_isWhitespace {c : Char} (h : isWhitespace c = true) : c.isDigit = false := by
  by_contra hdigit
  rw [Bool.not_eq_false] at hdigit
  simp only [Char.isDigit, ge_iff_le, Bool.and_eq_true, decide_eq_true_eq] at hdigit
  have hlow : 48 ≤ c.toNat := UInt32.le_iff_toNat_le.mp hdigit.1
  have hhigh : c.toNat ≤ 57 := UInt32.le_iff_toNat_le.mp hdigit.2
  simp only [isWhitespace, Bool.or_eq_true, Bool.and_eq_true, decide_eq_true_eq, beq_iff_eq] at h
  omega

/-- A digit is no blank. -/
theorem isWhitespace_of_isDigit {c : Char} (h : c.isDigit = true) : isWhitespace c = false := by
  by_contra hblank
  rw [isDigit_of_isWhitespace (by simpa using hblank)] at h
  cases h

/-- The scan of a number ends at the start of the text. -/
def StopsNumber (text : List Char) : Prop :=
  ∃ c rest, text = c :: rest ∧ c.isDigit = false ∧ c ≠ ',' ∧ c ≠ '_'

/-- Digits are taken one after the other. -/
theorem maxAgeDigits_append (start : List Char) (h : ∀ c ∈ digits, c.isDigit = true) :
    maxAgeDigits start (digits ++ text) = maxAgeDigits (start ++ digits) text := by
  induction digits generalizing start with
  | nil => rw [List.nil_append, List.append_nil]
  | cons c rest ih =>
      obtain ⟨hc, hrest⟩ := List.forall_mem_cons.mp h
      rw [List.cons_append, maxAgeDigits, if_pos hc, ih _ hrest, List.append_assoc,
        List.singleton_append]

/-- Digits are skipped one after the other. -/
theorem skipMaxAgeNumber_append (h : ∀ c ∈ digits, c.isDigit = true) :
    skipMaxAgeNumber true (digits ++ text) = skipMaxAgeNumber true text := by
  induction digits with
  | nil => rfl
  | cons c rest ih =>
      obtain ⟨hc, hrest⟩ := List.forall_mem_cons.mp h
      rw [List.cons_append, skipMaxAgeNumber, if_pos hc, ih hrest]

/-- No more digits are taken where the number ends. -/
theorem StopsNumber.maxAgeDigits_eq (h : StopsNumber text) (hne : digits ≠ []) :
    maxAgeDigits digits text = digits := by
  obtain ⟨c, rest, rfl, hdigit, hcomma, hunderscore⟩ := h
  rw [maxAgeDigits, if_neg (by simp [hdigit]), if_neg (by simp [hcomma, hunderscore]), if_neg hne,
    ite_self]

/-- Nothing more is skipped where the number ends. -/
theorem StopsNumber.skipMaxAgeNumber_eq (h : StopsNumber text) :
    skipMaxAgeNumber true text = some text := by
  obtain ⟨c, rest, rfl, hdigit, hcomma, hunderscore⟩ := h
  rw [skipMaxAgeNumber, if_neg (by simp [hdigit]), if_neg (by simp [hcomma, hunderscore]),
    if_pos rfl, ite_self]

/-- A blank ends the number. -/
theorem stopsNumber_of_isWhitespace {c : Char} (h : isWhitespace c = true) (text : List Char) :
    StopsNumber (c :: text) := by
  refine ⟨c, text, rfl, isDigit_of_isWhitespace h, fun hcomma => ?_, fun hunderscore => ?_⟩
  · rw [hcomma] at h
    revert h
    decide
  · rw [hunderscore] at h
    revert h
    decide

/-- A flag stops the scan, also when whitespace at the end of the segment is cut off. -/
theorem WritesFlag.stopsNumber {flag : HstsFlag} (h : WritesFlag flag text) (rest : List Char) :
    StopsNumber (trimEndMatches isWhitespace (text ++ rest)) := by
  obtain ⟨before, name, behind, hbefore, hbehind, hname⟩ := h
  have hmarks := flag.isMark_name hname
  cases name with
  | nil => exact absurd rfl (flag.name_ne_nil hname)
  | cons c name =>
      have hc := hmarks c List.mem_cons_self
      have htext : before ++ c :: name ++ behind ++ rest =
          before ++ c :: (name ++ behind ++ rest) := by simp
      rw [htext, trimEnd_append_cons (isWhitespace_of_isMark hc)]
      cases before with
      | nil =>
          exact ⟨c, _, rfl, isDigit_of_isMark hc, ne_of_isMark hc (by decide),
            ne_of_isMark hc (by decide)⟩
      | cons blank before =>
          exact stopsNumber_of_isWhitespace (hbefore blank List.mem_cons_self) _

/-- What is on the right has its partner on the left. -/
theorem exists_of_forall₂ {α β : Type} {R : α → β → Prop} {lefts : List α} {rights : List β}
    (h : List.Forall₂ R lefts rights) {right : β} (hmem : right ∈ rights) :
    ∃ left ∈ lefts, R left right := by
  induction h with
  | nil => cases hmem
  | cons hhead _ ih =>
      rcases List.mem_cons.mp hmem with rfl | hmem
      · exact ⟨_, List.mem_cons_self, hhead⟩
      · obtain ⟨left, hleft, hright⟩ := ih hmem
        exact ⟨left, List.mem_cons_of_mem _ hleft, hright⟩

/-- Parts with a comma in front of each. -/
theorem flatMap_comma (part : List Char) (parts : List (List Char)) :
    (part :: parts).flatMap (',' :: ·) = ',' :: [','].intercalate (part :: parts) := by
  induction parts generalizing part with
  | nil => simp
  | cons next rest ih =>
      rw [List.flatMap_cons, ih]
      simp [List.intercalate]

/-- Behind the digits come the flags, or nothing. -/
theorem scan_behind_number (hbehind : Blank behind) (hne : digits ≠ [])
    (hparts : List.Forall₂ WritesFlag flags parts) :
    maxAgeDigits digits
        (trimEndMatches isWhitespace (behind ++ parts.flatMap (',' :: ·))) = digits ∧
      (skipMaxAgeNumber true
          (trimEndMatches isWhitespace (behind ++ parts.flatMap (',' :: ·))) = none ∧ parts = [] ∨
        ∃ leftover, skipMaxAgeNumber true
            (trimEndMatches isWhitespace (behind ++ parts.flatMap (',' :: ·))) = some leftover ∧
          ((leftover.splitOn ',').map trimChars = parts.map trimChars ∨
            (leftover.splitOn ',').map trimChars = [] :: parts.map trimChars)) := by
  cases hparts with
  | nil =>
      rw [List.flatMap_nil, List.append_nil, trimEnd_blank hbehind]
      exact ⟨rfl, .inl ⟨rfl, rfl⟩⟩
  | @cons flag part flags parts hflag hrest =>
      have hcommas : ∀ text ∈ part :: parts, ',' ∉ text := by
        intro text htext
        obtain ⟨flag, -, htext⟩ := exists_of_forall₂ (List.Forall₂.cons hflag hrest) htext
        exact htext.not_mem (by decide) (by decide)
      have hsplit : ([','].intercalate (part :: parts)).splitOn ',' = part :: parts :=
        List.splitOn_intercalate ',' hcommas (List.cons_ne_nil _ _)
      have hparts : ((trimEndMatches isWhitespace ([','].intercalate (part :: parts))).splitOn
          ',').map trimChars = (part :: parts).map trimChars := by
        rw [map_trimChars_splitOn_trimEnd (by decide), hsplit]
      rw [flatMap_comma, trimEnd_append_cons (by decide)]
      cases behind with
      | nil =>
          obtain ⟨rest, hrest⟩ : ∃ rest, [','].intercalate (part :: parts) = part ++ rest := by
            cases parts with
            | nil => exact ⟨[], by rw [List.intercalate_singleton, List.append_nil]⟩
            | cons next more =>
                exact ⟨_, by rw [List.intercalate_cons_cons, List.append_assoc]⟩
          have hstops := hflag.stopsNumber rest
          rw [← hrest] at hstops
          refine ⟨?_, .inr ⟨_, ?_, .inl hparts⟩⟩
          · rw [List.nil_append, maxAgeDigits, if_neg (by decide), if_pos (.inl rfl)]
            exact hstops.maxAgeDigits_eq hne
          · rw [List.nil_append, skipMaxAgeNumber, if_neg (by decide), if_pos (.inl rfl)]
            exact hstops.skipMaxAgeNumber_eq
      | cons blank behind =>
          obtain ⟨hblank, -⟩ := List.forall_mem_cons.mp hbehind
          have hstops := stopsNumber_of_isWhitespace hblank (behind ++ ',' ::
            trimEndMatches isWhitespace ([','].intercalate (part :: parts)))
          refine ⟨hstops.maxAgeDigits_eq hne, .inr ⟨_, hstops.skipMaxAgeNumber_eq, .inr ?_⟩⟩
          rw [← List.cons_append, List.splitOn_append_cons_self_of_not_mem
            (hbehind.not_mem (by decide)), List.map_cons, hparts, trimChars_blank hbehind]

/-- A part may be trimmed before it is applied. -/
theorem applyTrailingPart_trimChars (result : HstsDirectives) (part : List Char) :
    applyTrailingPart result (trimChars part) = applyTrailingPart result part := by
  rw [applyTrailingPart, applyTrailingPart, trimChars_trimChars]

/-- Parts may be trimmed before they are applied. -/
theorem foldl_applyTrailingPart (parts : List (List Char)) (result : HstsDirectives) :
    (parts.map trimChars).foldl applyTrailingPart result =
      parts.foldl applyTrailingPart result := by
  rw [List.foldl_map]
  simp only [applyTrailingPart_trimChars]

/-- Parts that write flags set them. -/
theorem foldl_writesFlag (h : List.Forall₂ WritesFlag flags parts) (result : HstsDirectives) :
    parts.foldl applyTrailingPart result = flags.foldl HstsFlag.set result := by
  induction h generalizing result with
  | nil => rfl
  | cons hflag _ ih =>
      rw [List.foldl_cons, List.foldl_cons, hflag.applyTrailingPart_eq, ih]

/-- Nothing is dropped where the first does not ask for it. -/
theorem dropWhile_eq_self {α : Type} {p : α → Bool} {list : List α} (h : ∀ x ∈ list, p x = false) :
    list.dropWhile p = list := by
  cases list with
  | nil => rfl
  | cons x rest => rw [List.dropWhile_cons, if_neg (by simp [h x List.mem_cons_self])]

/-- Without quotes only whitespace is cut off around the number. -/
theorem trimMaxAge_eq (h : '"' ∉ text) : trimMaxAge text = trimChars text := by
  have hquote : ∀ c ∈ trimChars text, decide (c = '"') = false := by
    intro c hc
    exact decide_eq_false fun heq => h (heq ▸ mem_of_mem_trimChars hc)
  rw [trimMaxAge, dropWhile_eq_self hquote, trimEndMatches,
    dropWhile_eq_self fun c hc => hquote c (List.mem_reverse.mp hc), List.reverse_reverse,
    trimChars_trimChars]

/-- The value of `max-age` gives its number and sets the flags behind it. -/
theorem apply_maxAge_value {value : ℕ} {right : List Char} (hright : Blank right)
    (hbehind : Blank behind) (hnumber : WritesNumber value digits)
    (hparts : List.Forall₂ WritesFlag flags parts) (result : HstsDirectives) :
    let raw := trimEndMatches isWhitespace
      (right ++ (digits ++ (behind ++ parts.flatMap (',' :: ·))))
    parseMaxAgeNumber raw = (if value < 2 ^ 64 then some value else none) ∧
      applyTrailingCommaFlags raw result = flags.foldl HstsFlag.set result := by
  obtain ⟨hscan, hskip⟩ := scan_behind_number hbehind hnumber.ne_nil hparts
  have hdigits : ∀ c ∈ digits, isWhitespace c = false :=
    fun c hc => isWhitespace_of_isDigit (hnumber.isDigit c hc)
  have htrim : trimMaxAge (trimEndMatches isWhitespace
      (right ++ (digits ++ (behind ++ parts.flatMap (',' :: ·))))) =
        digits ++ trimEndMatches isWhitespace (behind ++ parts.flatMap (',' :: ·)) := by
    rw [trimMaxAge_eq, trimChars_trimEnd, blank_append_trimChars hright,
      trimChars_append hnumber.ne_nil hdigits]
    intro hquote
    have hmem := mem_of_mem_trimEnd hquote
    simp only [List.mem_append, List.mem_flatMap, List.mem_cons] at hmem
    rcases hmem with hmem | hmem | hmem | ⟨part, hpart, hcomma | hmem⟩
    · exact hright.not_mem (by decide) hmem
    · exact absurd (hnumber.isDigit _ hmem) (by decide)
    · exact hbehind.not_mem (by decide) hmem
    · exact absurd hcomma (by decide)
    · obtain ⟨flag, -, hflag⟩ := exists_of_forall₂ hparts hpart
      exact hflag.not_mem (by decide) (by decide) hmem
  intro raw
  have hraw : trimMaxAge raw = _ := htrim
  constructor
  · rw [parseMaxAgeNumber, hraw, maxAgeDigits_append _ hnumber.isDigit, List.nil_append, hscan]
    simp only [if_neg hnumber.ne_nil, parseU64, hnumber.value_eq]
  · have hstart : skipMaxAgeNumber false
        (digits ++ trimEndMatches isWhitespace (behind ++ parts.flatMap (',' :: ·))) =
          skipMaxAgeNumber true
            (trimEndMatches isWhitespace (behind ++ parts.flatMap (',' :: ·))) := by
      cases hdigits : digits with
      | nil => exact absurd hdigits hnumber.ne_nil
      | cons c rest =>
          have hall := hnumber.isDigit
          rw [hdigits, List.forall_mem_cons] at hall
          rw [List.cons_append, skipMaxAgeNumber, if_pos hall.1, skipMaxAgeNumber_append hall.2]
    rw [applyTrailingCommaFlags, remainderAfterMaxAgeNumber, hraw, hstart]
    rcases hskip with ⟨hnone, hnil⟩ | ⟨leftover, hsome, hsplit⟩
    · subst hnil
      cases hparts
      rw [hnone]
      rfl
    · rw [hsome]
      show (leftover.splitOn ',').foldl applyTrailingPart result = _
      rw [← foldl_applyTrailingPart]
      rcases hsplit with hsplit | hsplit
      · rw [hsplit, foldl_applyTrailingPart, foldl_writesFlag hparts]
      · have hempty : applyTrailingPart result [] = result := rfl
        rw [hsplit, List.foldl_cons, hempty, foldl_applyTrailingPart, foldl_writesFlag hparts]

end MaxAge

/-! ## Segments -/

namespace HstsDirective

/-- What a directive changes. -/
def apply (result : HstsDirectives) : HstsDirective → HstsDirectives
  | maxAge value flags =>
      flags.foldl HstsFlag.set
        { result with maxAge := if value < 2 ^ 64 then some value else none }
  | flag one => one.set result
  | unknown => result

/-- The directive is a `max-age`. -/
def isMaxAge : HstsDirective → Bool
  | maxAge _ _ => true
  | _ => false

/-- What a list of flags sets. -/
theorem foldl_set (flags : List HstsFlag) (result : HstsDirectives) :
    flags.foldl HstsFlag.set result =
      { maxAge := result.maxAge
        includeSubdomains := result.includeSubdomains || (.includeSubDomains ∈ flags : Bool)
        preload := result.preload || (.preload ∈ flags : Bool) } := by
  induction flags generalizing result with
  | nil => simp
  | cons flag flags ih =>
      rw [List.foldl_cons, ih]
      cases flag <;> simp [HstsFlag.set]

/-- Directives without a number set their flags. -/
theorem foldl_apply {directives : List HstsDirective}
    (h : ∀ directive ∈ directives, directive.isMaxAge = false) (result : HstsDirectives) :
    directives.foldl apply result = (directives.flatMap flags).foldl HstsFlag.set result := by
  induction directives generalizing result with
  | nil => rfl
  | cons directive rest ih =>
      obtain ⟨hfirst, hrest⟩ := List.forall_mem_cons.mp h
      rw [List.foldl_cons, ih hrest, List.flatMap_cons, List.foldl_append]
      cases directive with
      | maxAge value flags => cases hfirst
      | flag one => rfl
      | unknown => rfl

/-- Directives with one number say what this number and all flags say. -/
theorem foldl_apply_eq_saidBy {before behind : List HstsDirective} {value : ℕ}
    {flags : List HstsFlag} (hbefore : ∀ directive ∈ before, directive.isMaxAge = false)
    (hbehind : ∀ directive ∈ behind, directive.isMaxAge = false) :
    (before ++ maxAge value flags :: behind).foldl apply {} =
      saidBy value ((before ++ maxAge value flags :: behind).flatMap HstsDirective.flags) := by
  rw [List.foldl_append, List.foldl_cons, foldl_apply hbefore, apply, foldl_apply hbehind,
    List.flatMap_append, List.flatMap_cons, foldl_set, foldl_set, foldl_set]
  simp [saidBy, HstsDirective.flags, Bool.or_assoc]

end HstsDirective

/-- The name of a directive stands in front of the equals sign. -/
theorem splitDirectiveNameValue_name (text : List Char) :
    (splitDirectiveNameValue (trimChars text)).1 = trimChars (text.takeWhile (· ≠ '=')) := by
  obtain ⟨before, behind, hbefore, hbehind, htext⟩ := exists_eq_trimChars text
  by_cases hequals : '=' ∈ trimChars text
  · obtain ⟨name, value, hsplit, hname⟩ := List.eq_append_cons_of_mem hequals
    have hlead : ∀ c ∈ before ++ name, decide (c ≠ '=') = true := by
      intro c hc
      refine decide_eq_true fun heq => ?_
      rcases List.mem_append.mp (heq ▸ hc) with hmem | hmem
      · exact hbefore.not_mem (by decide) hmem
      · exact hname hmem
    have htake : text.takeWhile (· ≠ '=') = before ++ name := by
      rw [htext, hsplit, List.append_assoc, List.append_assoc, ← List.append_assoc,
        List.takeWhile_append_of_pos hlead, List.cons_append,
        List.takeWhile_cons_of_neg (by simp), List.append_nil]
    rw [splitDirectiveNameValue, htake, blank_append_trimChars hbefore, hsplit,
      splitOnce_append hname]
  · have htake : text.takeWhile (· ≠ '=') = text := by
      rw [List.takeWhile_eq_self_iff]
      intro c hc
      refine decide_eq_true fun heq => ?_
      rw [htext, List.mem_append, List.mem_append] at hc
      rcases hc with (hmem | hmem) | hmem
      · exact hbefore.not_mem (by decide) (heq ▸ hmem)
      · exact hequals (heq ▸ hmem)
      · exact hbehind.not_mem (by decide) (heq ▸ hmem)
    rw [splitDirectiveNameValue, splitOnce_eq_none hequals, trimChars_trimChars, htake]

namespace WritesDirective

variable {directive : HstsDirective} {text : List Char}

/-- A directive has no semicolon and no quotes. -/
theorem not_mem (h : WritesDirective directive text) {c : Char}
    (hc : c = ';' ∨ c = '"' ∨ c = '\'') : c ∉ text := by
  have hmark : isMark c = true := by rcases hc with rfl | rfl | rfl <;> decide
  have hblank : isWhitespace c = false := by rcases hc with rfl | rfl | rfl <;> decide
  have hdigit : c.isDigit = false := by rcases hc with rfl | rfl | rfl <;> decide
  cases h with
  | maxAge value flags before name left right digits behind parts hbefore hleft hright hbehind hname
      hnumber hparts =>
      intro hmem
      simp only [List.mem_append, List.mem_flatMap, List.mem_cons] at hmem
      rcases hmem with hmem | hmem | hmem | hmem | hmem | hmem | hmem | ⟨part, hpart, hmem | hmem⟩
      · exact hbefore.not_mem hblank hmem
      · exact not_mem_of_isMark (isMark_of_equalsIgnoreCase hname (by decide)) hmark hmem
      · exact hleft.not_mem hblank hmem
      · rw [hmem] at hc
        revert hc
        decide
      · exact hright.not_mem hblank hmem
      · rw [hnumber.isDigit c hmem] at hdigit
        cases hdigit
      · exact hbehind.not_mem hblank hmem
      · rw [hmem] at hc
        revert hc
        decide
      · obtain ⟨flag, -, hflag⟩ := exists_of_forall₂ hparts hpart
        exact hflag.not_mem hmark hblank hmem
  | flag flag text hflag => exact hflag.not_mem hmark hblank
  | unknown text hsemicolon hdouble hsingle hname =>
      rcases hc with rfl | rfl | rfl
      · exact hsemicolon
      · exact hdouble
      · exact hsingle

/-- A segment is read as the directive that is written in it. -/
theorem applyHstsSegment_eq (h : WritesDirective directive text) (result : HstsDirectives) :
    applyHstsSegment text result = directive.apply result := by
  cases h with
  | maxAge value flags before name left right digits behind parts hbefore hleft hright hbehind hname
      hnumber hparts =>
      have hmarks := isMark_of_equalsIgnoreCase hname (by decide)
      have hblank : ∀ c ∈ name, isWhitespace c = false :=
        fun c hc => isWhitespace_of_isMark (hmarks c hc)
      have hne : name ≠ [] := ne_nil_of_equalsIgnoreCase hname (by decide)
      obtain ⟨hvalue, htrailing⟩ := apply_maxAge_value hright hbehind hnumber hparts
        { result with maxAge := if value < 2 ^ 64 then some value else none }
      have htrim : trimChars (before ++ (name ++ (left ++ '=' ::
          (right ++ (digits ++ (behind ++ parts.flatMap (',' :: ·))))))) =
            (name ++ left) ++ '=' :: trimEndMatches isWhitespace
              (right ++ (digits ++ (behind ++ parts.flatMap (',' :: ·)))) := by
        rw [blank_append_trimChars hbefore, trimChars_append hne hblank,
          trimEnd_append_cons (by decide), List.append_assoc]
      have hequals : '=' ∉ name ++ left := by
        rw [List.mem_append, not_or]
        exact ⟨not_mem_of_isMark hmarks (by decide), hleft.not_mem (by decide)⟩
      have hsplit : splitDirectiveNameValue ((name ++ left) ++ '=' :: trimEndMatches isWhitespace
          (right ++ (digits ++ (behind ++ parts.flatMap (',' :: ·))))) =
            (name, some (trimEndMatches isWhitespace
              (right ++ (digits ++ (behind ++ parts.flatMap (',' :: ·)))))) := by
        rw [splitDirectiveNameValue, splitOnce_append hequals]
        simp only [trimChars_append_blank hleft, trimChars_eq_self hblank]
      rw [applyHstsSegment, htrim]
      simp only [hsplit, List.append_eq_nil_iff, reduceCtorEq, and_false, if_false, hname, true_or,
        if_true, hvalue, htrailing]
      rfl
  | flag flag text hflag => exact hflag.applyHstsSegment_eq result
  | unknown text hsemicolon hdouble hsingle hname =>
      rw [applyHstsSegment]
      split
      · rfl
      · have hfirst := splitDirectiveNameValue_name text
        simp only [List.forall_mem_cons] at hname
        obtain ⟨hage, hmaxage, hsubdomains, hpreload, -⟩ := hname
        have hlower : equalsIgnoreCase (trimChars (text.takeWhile (· ≠ '='))) "includesubdomains" =
            false := by
          rwa [← equalsIgnoreCase_includeSubDomains]
        rw [← hfirst] at hage hmaxage hlower hpreload
        simp only [hage, hmaxage, Bool.false_eq_true, or_self, if_false]
        rw [applyFlagName, hlower, hpreload]
        rfl

/-- Segments that write directives apply them. -/
theorem foldl_applyHstsSegment {directives : List HstsDirective} {texts : List (List Char)}
    (h : List.Forall₂ WritesDirective directives texts) (result : HstsDirectives) :
    texts.foldl (fun result segment => applyHstsSegment segment result) result =
      directives.foldl HstsDirective.apply result := by
  induction h generalizing result with
  | nil => rfl
  | cons hdirective _ ih =>
      rw [List.foldl_cons, List.foldl_cons, hdirective.applyHstsSegment_eq, ih]

end WritesDirective

/-! ## Headers -/

/-- A segment may be trimmed before it is applied. -/
theorem applyHstsSegment_trimChars (segment : List Char) (result : HstsDirectives) :
    applyHstsSegment (trimChars segment) result = applyHstsSegment segment result := by
  rw [applyHstsSegment, applyHstsSegment, trimChars_trimChars]

/-- Segments may be trimmed before they are applied. -/
theorem foldl_applyHstsSegment_trimChars (segments : List (List Char)) (result : HstsDirectives) :
    (segments.map trimChars).foldl (fun result segment => applyHstsSegment segment result) result =
      segments.foldl (fun result segment => applyHstsSegment segment result) result := by
  rw [List.foldl_map]
  simp only [applyHstsSegment_trimChars]

/-- A character of joined texts is the separator or from a text. -/
theorem mem_intercalate {sep c : Char} {texts : List (List Char)}
    (h : c ∈ [sep].intercalate texts) : c = sep ∨ ∃ text ∈ texts, c ∈ text := by
  induction texts with
  | nil => cases h
  | cons text texts ih =>
      cases texts with
      | nil =>
          rw [List.intercalate_singleton] at h
          exact .inr ⟨text, List.mem_cons_self, h⟩
      | cons next more =>
          rw [List.intercalate_cons_cons, List.append_assoc, List.mem_append, List.mem_append,
            List.mem_singleton] at h
          rcases h with h | h | h
          · exact .inr ⟨text, List.mem_cons_self, h⟩
          · exact .inl h
          · exact (ih h).imp_right fun ⟨other, hother, hc⟩ =>
              ⟨other, List.mem_cons_of_mem _ hother, hc⟩

section Header

variable {named : Bool} {directives : List HstsDirective} {texts : List (List Char)}
  {value header : List Char} {c : Char}

/-- Joined directives have no quotes. -/
theorem not_mem_intercalate (h : List.Forall₂ WritesDirective directives texts)
    (hc : c = '"' ∨ c = '\'') : c ∉ [';'].intercalate texts := by
  intro hmem
  rcases mem_intercalate hmem with hsemicolon | ⟨text, htext, hmem⟩
  · rw [hsemicolon] at hc
    revert hc
    decide
  · obtain ⟨directive, -, hwrites⟩ := exists_of_forall₂ h htext
    exact hwrites.not_mem (.inr hc) hmem

/-- No quotes occur within a value. -/
theorem WritesValue.not_mem (h : WritesValue directives named value) (hc : c = '"' ∨ c = '\'') :
    c ∉ value := by
  cases h with
  | bare texts htexts => exact not_mem_intercalate htexts hc
  | named texts before name hbefore hname htexts =>
      rw [List.mem_append, List.mem_append, not_or, not_or]
      have hblank : isWhitespace c = false := by rcases hc with rfl | rfl <;> decide
      refine ⟨hbefore.not_mem hblank, fun hmem => ?_, not_mem_intercalate htexts hc⟩
      have hmark : isMark c = true := by rcases hc with rfl | rfl <;> decide
      exact not_mem_of_isMark (isMark_of_equalsIgnoreCase hname (by decide)) hmark hmem

/-- Nothing is stripped where no quotes are. -/
theorem stripMatchingQuotes_eq_none (hdouble : '"' ∉ value) (hsingle : '\'' ∉ value) :
    stripMatchingQuotes value = none := by
  match value with
  | [] => rfl
  | [_] => rfl
  | first :: next :: rest =>
      rw [List.mem_cons, not_or] at hdouble hsingle
      refine if_neg fun hquotes => ?_
      rcases hquotes with ⟨hfirst, -⟩ | ⟨hfirst, -⟩
      · exact hdouble.1 hfirst.symm
      · exact hsingle.1 hfirst.symm

/-- Quotes are taken off. -/
theorem Quotes.normalizeHstsValue_eq (h : Quotes value header) (hdouble : '"' ∉ value)
    (hsingle : '\'' ∉ value) :
    normalizeHstsValue header =
      if startsWithHeaderName (trimChars value) then
        trimChars ((trimChars value).drop hstsHeaderName.length)
      else trimChars value := by
  cases h with
  | plain =>
      have hstrip : stripMatchingQuotes (trimChars value) = none :=
        stripMatchingQuotes_eq_none (fun hmem => hdouble (mem_of_mem_trimChars hmem))
          fun hmem => hsingle (mem_of_mem_trimChars hmem)
      simp only [normalizeHstsValue, hstrip]
  | quoted before quote behind hbefore hbehind hquote =>
      have htrim : trimChars (before ++ quote :: (value ++ quote :: behind)) =
          quote :: (value ++ [quote]) := by
        have hblank : isWhitespace quote = false := by rcases hquote with rfl | rfl <;> decide
        rw [blank_append_trimChars hbefore, ← List.singleton_append,
          trimChars_append (List.cons_ne_nil _ _) (by simpa using hblank),
          trimEnd_append_cons hblank, trimEnd_blank hbehind]
        rfl
      have hstrip : stripMatchingQuotes (quote :: (value ++ [quote])) = some value := by
        have hsplit : stripMatchingQuotes (quote :: (value ++ [quote])) =
            if (quote = '"' ∧ (value ++ [quote]).getLast? = some '"') ∨
                (quote = '\'' ∧ (value ++ [quote]).getLast? = some '\'') then
              some (value ++ [quote]).dropLast
            else none := by
          cases value <;> rfl
        rw [hsplit, List.getLast?_concat, List.dropLast_concat,
          if_pos (by rcases hquote with rfl | rfl <;> simp)]
      simp only [normalizeHstsValue, htrim, hstrip]

/-- What is left of a value is the trimmed text of its directives. -/
theorem WritesValue.normalize (h : WritesValue directives named value)
    (hname : named = false → startsWithHeaderName (trimChars value) = false) :
    ∃ texts, List.Forall₂ WritesDirective directives texts ∧
      (if startsWithHeaderName (trimChars value) then
        trimChars ((trimChars value).drop hstsHeaderName.length)
      else trimChars value) = trimChars ([';'].intercalate texts) := by
  cases h with
  | bare texts htexts => exact ⟨texts, htexts, by rw [hname rfl]; rfl⟩
  | named texts before name hbefore hheader htexts =>
      refine ⟨texts, htexts, ?_⟩
      have hmarks := isMark_of_equalsIgnoreCase hheader (by decide)
      have htrim : trimChars (before ++ (name ++ [';'].intercalate texts)) =
          name ++ trimEndMatches isWhitespace ([';'].intercalate texts) := by
        rw [blank_append_trimChars hbefore,
          trimChars_append (ne_nil_of_equalsIgnoreCase hheader (by decide))
            fun c hc => isWhitespace_of_isMark (hmarks c hc)]
      have hlower : name.map Char.toLower = hstsHeaderName.toList := by
        rw [map_toLower_of_equalsIgnoreCase hheader]
        decide
      have hlength : name.length = hstsHeaderName.length := by
        rw [← List.length_map (f := Char.toLower), hlower, String.length_toList]
      have hstarts : startsWithHeaderName (trimChars (before ++ (name ++
          [';'].intercalate texts))) = true := by
        rw [startsWithHeaderName, htrim, List.map_append, hlower]
        exact List.isPrefixOf_iff_prefix.mpr (List.prefix_append _ _)
      rw [if_pos hstarts, htrim, ← hlength, List.drop_left, trimChars_trimEnd]

/-- A value that is written so is parsed to what it says. -/
theorem parseHstsDirective_eq (hvalue : WritesValue directives named value)
    (hheader : Quotes value header)
    (hname : named = false → startsWithHeaderName (trimChars value) = false)
    (hne : directives ≠ []) :
    parseHstsDirective header = directives.foldl HstsDirective.apply {} := by
  obtain ⟨texts, htexts, hnormal⟩ := hvalue.normalize hname
  have hsemicolons : ∀ text ∈ texts, ';' ∉ text := by
    intro text htext
    obtain ⟨directive, -, hwrites⟩ := exists_of_forall₂ htexts htext
    exact hwrites.not_mem (.inl rfl)
  have htextsNe : texts ≠ [] := by
    intro hnil
    subst hnil
    cases htexts
    exact hne rfl
  rw [parseHstsDirective, hheader.normalizeHstsValue_eq (hvalue.not_mem (.inl rfl))
    (hvalue.not_mem (.inr rfl)), hnormal, ← foldl_applyHstsSegment_trimChars,
    map_trimChars_splitOn (by decide), List.splitOn_intercalate ';' hsemicolons htextsNe,
    foldl_applyHstsSegment_trimChars, WritesDirective.foldl_applyHstsSegment htexts]

end Header

/-- A header is read as it was written, with its name in front or without, quoted or not, in any
order, letter case and spacing, unless it has no name in front and its first directive is written
like one. -/
theorem parse_hsts_directive_inverts (before behind : List HstsDirective) {value : ℕ}
    {flags : List HstsFlag} {named : Bool} {text header : List Char}
    (hbefore : ∀ directive ∈ before, directive.isMaxAge = false)
    (hbehind : ∀ directive ∈ behind, directive.isMaxAge = false)
    (htext : WritesValue (before ++ .maxAge value flags :: behind) named text)
    (hheader : Quotes text header)
    (hname : named = false → startsWithHeaderName (trimChars text) = false) :
    parseHstsDirective header =
      saidBy value ((before ++ .maxAge value flags :: behind).flatMap HstsDirective.flags) := by
  rw [parseHstsDirective_eq htext hheader hname (by simp),
    HstsDirective.foldl_apply_eq_saidBy hbefore hbehind]

/-- `max-age=60, preload`, in other letters. -/
theorem writes_max_age :
    WritesDirective (.maxAge 60 [.preload]) " Max-Age = 60 , Preload".toList :=
  .maxAge 60 [.preload] [' '] "Max-Age".toList [' '] [' '] "60".toList [' '] [" Preload".toList]
    (by decide) (by decide) (by decide) (by decide) (by decide)
    (writesNumber_repr 60)
    (.cons (.mk [' '] "Preload".toList [] (by decide) (by decide) (by decide)) .nil)

/-- An unknown directive in front that is written like the name of the header is cut short. -/
theorem parse_hsts_directive_cuts_name :
    ∃ text, WritesValue [.unknown, .maxAge 60 [.preload]] false text ∧ Quotes text text ∧
      parseHstsDirective text ≠
        saidBy 60 ([HstsDirective.unknown, .maxAge 60 [.preload]].flatMap HstsDirective.flags) :=
  ⟨_, .bare ["strict-transport-security:includeSubDomains".toList,
      " Max-Age = 60 , Preload".toList]
    (.cons (.unknown _ (by decide) (by decide) (by decide) (by decide))
      (.cons writes_max_age .nil)), .plain, by decide⟩

/-- A header in quotes, with its name in front and an unknown directive. -/
theorem parse_hsts_directive_quoted :
    parseHstsDirective "\"Strict-Transport-Security: Max-Age = 60 , Preload;foo=bar\" ".toList =
      saidBy 60 [.preload] :=
  parse_hsts_directive_inverts [] [.unknown] (by decide) (by decide)
    (.named [" Max-Age = 60 , Preload".toList, "foo=bar".toList] []
      "Strict-Transport-Security:".toList (by decide) (by decide)
      (.cons writes_max_age (.cons (.unknown _ (by decide) (by decide) (by decide) (by decide))
        .nil)))
    (.quoted [] '"' [' '] (by decide) (by decide) (.inl rfl)) nofun

end DomainStatus.Security
