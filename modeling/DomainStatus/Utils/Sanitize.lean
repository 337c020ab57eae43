import DomainStatus.Lib.ByteOffsets

/-!
# Bounded texts

`src/utils/sanitize.rs`: control characters are taken out of a message, and texts are cut to a
number of bytes. A result of `none` stands for a panic of a slice. Read
`truncate_utf8_with_suffix_spec` first.
-/

namespace DomainStatus.Sanitize

open Text

/-- `MAX_ERROR_MESSAGE_LENGTH`. -/
def maxErrorMessageLength : ℕ := 2000

/-- Printable ASCII, tab, newline, carriage return, or not ASCII. -/
def isAllowed (c : Char) : Bool :=
  0x20 ≤ c.toNat || c.toNat == 0x09 || c.toNat == 0x0a || c.toNat == 0x0d || 0x7f < c.toNat

/-- The message without its control characters. -/
def sanitizeErrorMessage (message : List Char) : List Char :=
  message.filter isAllowed

/-- The start of a text that fits into a number of bytes. -/
def truncateAtCharBoundary (value : List Char) (maxLen : ℕ) : Option (List Char) :=
  if len value ≤ maxLen then some value else slice value 0 (stepBack value maxLen)

/-- The start of a text that fits, which is the whole text if that fits. -/
def truncateUtf8 (value : List Char) (maxLen : ℕ) : Option (List Char) :=
  truncateAtCharBoundary value maxLen

/-- A text that does not fit is cut so that it does with a suffix behind it. -/
def truncateUtf8WithSuffix (value : List Char) (maxLen : ℕ) (suffix : List Char) :
    Option (List Char) :=
  if len value ≤ maxLen then some value
  else if maxLen = 0 then some []
  else if maxLen ≤ len suffix then truncateUtf8 suffix maxLen
  else (truncateAtCharBoundary value (maxLen - len suffix)).map fun lead => lead ++ suffix

/-- The note at the end of a message that was cut. -/
def truncatedNote (sanitized : List Char) : List Char :=
  "... (truncated, original length: ".toList ++ (Nat.repr sanitized.length).toList ++
    " chars)".toList

/-- The message as it is stored: without control characters and within its bound. -/
def sanitizeAndTruncateErrorMessage (message : List Char) : Option (List Char) :=
  let sanitized := sanitizeErrorMessage message
  if maxErrorMessageLength < len sanitized then
    truncateUtf8WithSuffix sanitized maxErrorMessageLength (truncatedNote sanitized)
  else some sanitized

/-! ## Truncation -/

/-- Truncation never panics. It takes the longest start that fits. -/
theorem truncateAtCharBoundary_eq (value : List Char) (maxLen : ℕ) :
    truncateAtCharBoundary value maxLen = some (Text.truncateAtCharBoundary maxLen value) := by
  rw [truncateAtCharBoundary]
  split
  case isTrue hfits => rw [Text.truncateAtCharBoundary_of_le hfits]
  case isFalse => exact slice_stepBack value maxLen

/-- What the truncation leaves. -/
theorem truncateUtf8WithSuffix_eq (value : List Char) (maxLen : ℕ) (suffix : List Char) :
    truncateUtf8WithSuffix value maxLen suffix =
      some (if len value ≤ maxLen then value
        else if maxLen ≤ len suffix then Text.truncateAtCharBoundary maxLen suffix
        else Text.truncateAtCharBoundary (maxLen - len suffix) value ++ suffix) := by
  rw [truncateUtf8WithSuffix]
  split
  · rfl
  · split
    case isTrue hzero =>
      have hfits := (truncateAtCharBoundary_isLongestStart maxLen suffix).holds
      have hnil : Text.truncateAtCharBoundary maxLen suffix = [] :=
        eq_nil_of_len_eq_zero (by omega)
      rw [if_pos (by omega), hnil]
    case isFalse =>
      split
      · exact truncateAtCharBoundary_eq suffix maxLen
      · rw [truncateAtCharBoundary_eq, Option.map_some]

/-- A text cut to a number of bytes, with a suffix behind it if it was cut. -/
structure TruncateSpec (value : List Char) (maxLen : ℕ) (suffix result : List Char) : Prop where
  fits : len result ≤ maxLen
  whole : result = value ↔ len value ≤ maxLen
  cut : maxLen < len value → len suffix < maxLen →
    ∃ lead, result = lead ++ suffix ∧
      IsLongestStart value (fun head => len (head ++ suffix) ≤ maxLen) lead
  suffixOnly : maxLen < len value → maxLen ≤ len suffix →
    IsLongestStart suffix (fun head => len head ≤ maxLen) result

/-- The truncation returns and keeps its promises. -/
theorem truncate_utf8_with_suffix_spec (value : List Char) (maxLen : ℕ) (suffix : List Char) :
    ∃ result, truncateUtf8WithSuffix value maxLen suffix = some result ∧
      TruncateSpec value maxLen suffix result := by
  refine ⟨_, truncateUtf8WithSuffix_eq value maxLen suffix, ?_⟩
  by_cases hvalue : len value ≤ maxLen
  · rw [if_pos hvalue]
    exact ⟨hvalue, iff_of_true rfl hvalue, fun hlong => absurd hvalue (Nat.not_le.mpr hlong),
      fun hlong => absurd hvalue (Nat.not_le.mpr hlong)⟩
  rw [if_neg hvalue]
  by_cases hsuffix : maxLen ≤ len suffix
  · rw [if_pos hsuffix]
    have hlongest := truncateAtCharBoundary_isLongestStart maxLen suffix
    refine ⟨hlongest.holds, iff_of_false (fun heq => hvalue ?_) hvalue,
      fun _ hshort => absurd hsuffix (Nat.not_le.mpr hshort), fun _ _ => hlongest⟩
    rw [← heq]
    exact hlongest.holds
  · rw [if_neg hsuffix]
    obtain ⟨hstart, hfits, hlongest⟩ :=
      truncateAtCharBoundary_isLongestStart (maxLen - len suffix) value
    have hlen :
        len (Text.truncateAtCharBoundary (maxLen - len suffix) value ++ suffix) ≤ maxLen := by
      rw [len_append]
      omega
    refine ⟨hlen, iff_of_false (fun heq => hvalue ?_) hvalue,
      fun _ _ => ⟨_, rfl, hstart, hlen, fun other hother hroom => hlongest other hother ?_⟩,
      fun _ honly => absurd honly hsuffix⟩
    · rw [← heq]
      exact hlen
    · rw [len_append] at hroom
      omega

/-! ## Error messages -/

section Messages

variable {value suffix result message : List Char} {maxLen : ℕ} {c : Char}

/-- A cut text has only characters of the text and of the suffix. -/
theorem TruncateSpec.mem (hspec : TruncateSpec value maxLen suffix result) (h : c ∈ result) :
    c ∈ value ∨ c ∈ suffix := by
  by_cases hvalue : len value ≤ maxLen
  · rw [hspec.whole.mpr hvalue] at h
    exact Or.inl h
  · by_cases hsuffix : maxLen ≤ len suffix
    · exact Or.inr ((hspec.suffixOnly (Nat.not_le.mp hvalue) hsuffix).start.subset h)
    · obtain ⟨lead, rfl, hlongest⟩ := hspec.cut (Nat.not_le.mp hvalue) (Nat.not_le.mp hsuffix)
      rcases List.mem_append.mp h with hlead | hsuffix
      · exact Or.inl (hlongest.start.subset hlead)
      · exact Or.inr hsuffix

/-- A control character of ASCII below the space, but no tab, newline or carriage return. -/
def IsRemovedControl (c : Char) : Prop :=
  c.toNat < 0x20 ∧ c ≠ '\t' ∧ c ≠ '\n' ∧ c ≠ '\r'

/-- Only control characters are taken out. -/
theorem isAllowed_iff : isAllowed c = true ↔ ¬IsRemovedControl c := by
  have htab : c = '\t' ↔ c.toNat = 0x09 := Char.toNat_inj.symm
  have hnewline : c = '\n' ↔ c.toNat = 0x0a := Char.toNat_inj.symm
  have hreturn : c = '\r' ↔ c.toNat = 0x0d := Char.toNat_inj.symm
  simp only [isAllowed, IsRemovedControl, Bool.or_eq_true, decide_eq_true_eq, beq_iff_eq, ne_eq,
    htab, hnewline, hreturn]
  omega

/-- What is left is allowed. -/
theorem isAllowed_of_mem_sanitize (h : c ∈ sanitizeErrorMessage message) : isAllowed c = true :=
  (List.mem_filter.mp h).2

/-- Sanitized text stays as it is. -/
theorem sanitizeErrorMessage_eq_self (h : ∀ c ∈ message, isAllowed c = true) :
    sanitizeErrorMessage message = message :=
  List.filter_eq_self.mpr h

/-- The note is allowed. -/
theorem isAllowed_of_mem_note (h : c ∈ truncatedNote message) : isAllowed c = true := by
  have hbefore : "... (truncated, original length: ".toList.all isAllowed = true := by decide
  have hbehind : " chars)".toList.all isAllowed = true := by decide
  unfold truncatedNote at h
  rw [List.mem_append, List.mem_append] at h
  rcases h with (hlead | hnumber) | htail
  · exact List.all_eq_true.mp hbefore c hlead
  · have hdigit := (toNat_of_isDigit (isDigit_of_mem_repr hnumber)).1
    have hcode : 0x20 ≤ c.toNat := by omega
    simp [isAllowed, hcode]
  · exact List.all_eq_true.mp hbehind c htail

/-- A message that is short and clean already stays as it is. -/
theorem sanitizeAndTruncate_eq_self (hclean : ∀ c ∈ message, isAllowed c = true)
    (hshort : len message ≤ maxErrorMessageLength) :
    sanitizeAndTruncateErrorMessage message = some message := by
  rw [sanitizeAndTruncateErrorMessage, sanitizeErrorMessage_eq_self hclean]
  exact if_neg (Nat.not_lt.mpr hshort)

/-- A sanitized message is short and clean. -/
theorem sanitizeAndTruncate_spec (message : List Char) :
    ∃ result, sanitizeAndTruncateErrorMessage message = some result ∧
      len result ≤ maxErrorMessageLength ∧ ∀ c ∈ result, isAllowed c = true := by
  by_cases hlong : maxErrorMessageLength < len (sanitizeErrorMessage message)
  · obtain ⟨result, hresult, hspec⟩ := truncate_utf8_with_suffix_spec (sanitizeErrorMessage message)
      maxErrorMessageLength (truncatedNote (sanitizeErrorMessage message))
    refine ⟨result, ?_, hspec.fits, fun c hc => ?_⟩
    · rw [← hresult]
      exact if_pos hlong
    · rcases hspec.mem hc with hvalue | hnote
      · exact isAllowed_of_mem_sanitize hvalue
      · exact isAllowed_of_mem_note hnote
  · exact ⟨_, if_neg hlong, Nat.not_lt.mp hlong, fun c hc => isAllowed_of_mem_sanitize hc⟩

end Messages

/-- A message fits and has no control characters. -/
def BoundedMessage (message : String) : Prop :=
  len message.toList ≤ maxErrorMessageLength ∧ ∀ c ∈ message.toList, ¬IsRemovedControl c

/-- A message is stored within its bound. -/
theorem sanitizeAndTruncate_bounded (message : String) :
    ∃ result, sanitizeAndTruncateErrorMessage message.toList = some result ∧
      BoundedMessage (String.ofList result) := by
  obtain ⟨result, hresult, hfits, hclean⟩ := sanitizeAndTruncate_spec message.toList
  refine ⟨result, hresult, ?_⟩
  rw [BoundedMessage, String.toList_ofList]
  exact ⟨hfits, fun c hc => isAllowed_iff.mp (hclean c hc)⟩

/-- The bounded text helpers keep to their bounds, and to sanitize a message again changes nothing.
-/
theorem sanitize_bounded :
    (∀ value maxLen suffix, ∃ result, truncateUtf8WithSuffix value maxLen suffix = some result ∧
      TruncateSpec value maxLen suffix result) ∧
    ∀ message, ∃ result, sanitizeAndTruncateErrorMessage message = some result ∧
      len result ≤ maxErrorMessageLength ∧ (∀ c ∈ result, ¬IsRemovedControl c) ∧
      sanitizeAndTruncateErrorMessage result = some result := by
  refine ⟨truncate_utf8_with_suffix_spec, fun message => ?_⟩
  obtain ⟨result, hresult, hfits, hclean⟩ := sanitizeAndTruncate_spec message
  exact ⟨result, hresult, hfits, fun c hc => isAllowed_iff.mp (hclean c hc),
    sanitizeAndTruncate_eq_self hclean hfits⟩

end DomainStatus.Sanitize
