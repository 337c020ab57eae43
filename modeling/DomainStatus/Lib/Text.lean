import Mathlib.Algebra.Group.Int.Defs
import Mathlib.Algebra.Group.Nat.Defs
import Mathlib.Algebra.GroupWithZero.Nat
import Mathlib.Data.List.DropRight
import Mathlib.Data.List.Infix
import Mathlib.Data.List.TakeDrop
import Mathlib.Data.Nat.Notation
import Mathlib.Tactic.Common

/-!
# Text functions of the Rust standard library

The functions of `str` that the program applies to text, on strings and on their characters. They
follow the documented behaviour of the standard library where Lean's own functions differ from it.
-/

namespace Text

/-- `char::is_whitespace`: the Unicode property `White_Space`. -/
def isWhitespace (c : Char) : Bool :=
  (0x09 ≤ c.toNat && c.toNat ≤ 0x0d) || c.toNat == 0x20 || c.toNat == 0x85 || c.toNat == 0xa0 ||
    c.toNat == 0x1680 || (0x2000 ≤ c.toNat && c.toNat ≤ 0x200a) || c.toNat == 0x2028 ||
    c.toNat == 0x2029 || c.toNat == 0x202f || c.toNat == 0x205f || c.toNat == 0x3000

/-- A character of the scheme of a URL behind its first one. -/
def isSchemeChar (c : Char) : Bool :=
  c.isAlphanum || c == '+' || c == '-' || c == '.'

/-- What holds of every character of a text is decided on the text, and not on all characters that
there are. -/
instance (priority := 2000) decidableForallMem (p : Char → Prop) [DecidablePred p]
    (text : List Char) : Decidable (∀ c ∈ text, p c) :=
  List.decidableBAll p text

/-- `str::trim_end_matches` for a set of characters. -/
def trimEndMatches (p : Char → Bool) (text : List Char) : List Char :=
  (text.reverse.dropWhile p).reverse

/-- `str::trim` on the characters of a string. -/
def trimChars (text : List Char) : List Char :=
  trimEndMatches isWhitespace (text.dropWhile isWhitespace)

/-- `str::trim`. -/
def trim (text : String) : String :=
  String.ofList (trimChars text.toList)

/-- `str::starts_with`. -/
def startsWith (text lead : String) : Bool :=
  lead.toList.isPrefixOf text.toList

/-- `str::ends_with`. -/
def endsWith (text tail : String) : Bool :=
  tail.toList.isSuffixOf text.toList

/-- `str::strip_prefix`. -/
def stripPrefix (text lead : String) : Option String :=
  (text.toList.dropPrefix? lead.toList).map String.ofList

/-- `str::strip_suffix`. -/
def stripSuffix (text tail : String) : Option String :=
  if tail.toList.isSuffixOf text.toList then
    some (String.ofList (text.toList.take (text.toList.length - tail.toList.length)))
  else none

/-- `str::to_ascii_lowercase`. -/
def toAsciiLowercase (text : String) : String :=
  String.ofList (text.toList.map Char.toLower)

/-- `str::to_ascii_uppercase`. -/
def toAsciiUppercase (text : String) : String :=
  String.ofList (text.toList.map Char.toUpper)

/-- `str::eq_ignore_ascii_case`. -/
def eqIgnoreAsciiCase (left right : String) : Bool :=
  left.toList.map Char.toLower == right.toList.map Char.toLower

/-- The parts of a text between the occurrences of `sep`. The number counts the characters of an
occurrence that are still to be passed over. -/
def splitAux (sep : List Char) : ℕ → List Char → List Char → List (List Char)
  | _, part, [] => [part.reverse]
  | skip + 1, part, _ :: rest => splitAux sep skip part rest
  | 0, part, c :: rest =>
      if sep.isPrefixOf (c :: rest) then part.reverse :: splitAux sep (sep.length - 1) [] rest
      else splitAux sep 0 (c :: part) rest

/-- `str::split` at a non-empty text, on the characters of a string. -/
def split (sep text : List Char) : List (List Char) :=
  splitAux sep 0 [] text

/-- `str::contains`, on the characters of a string. -/
def contains (text needle : List Char) : Bool :=
  text.tails.any fun tail => needle.isPrefixOf tail

/-- Replaces the occurrences of `needle`. The number counts the characters of an occurrence that are
still to be passed over. -/
def replaceAux (needle replacement : List Char) : ℕ → List Char → List Char
  | _, [] => []
  | skip + 1, _ :: rest => replaceAux needle replacement skip rest
  | 0, c :: rest =>
      if needle.isPrefixOf (c :: rest) then
        replacement ++ replaceAux needle replacement (needle.length - 1) rest
      else c :: replaceAux needle replacement 0 rest

/-- `str::replace` of a non-empty text, on the characters of a string. -/
def replace (text needle replacement : List Char) : List Char :=
  replaceAux needle replacement 0 text

/-- `str::len` on the characters of a string: its length in bytes. -/
@[grind =] def len (text : List Char) : ℕ :=
  (text.map Char.utf8Size).sum

/-- `str::split_once`, on the characters of a string. -/
def splitOnce (c : Char) (text : List Char) : Option (List Char × List Char) :=
  match text.span (· ≠ c) with
  | (_, []) => none
  | (before, _ :: after) => some (before, after)

/-- The lines of a text. The line so far is given in reverse. -/
def linesAux : List Char → List Char → List (List Char)
  | [], [] => []
  | line, [] => [line.reverse]
  | line, c :: rest =>
      if c = '\n' then
        (if line.head? = some '\r' then line.tail else line).reverse :: linesAux [] rest
      else linesAux (c :: line) rest

/-- `str::lines`, on the characters of a string. -/
def lines (text : List Char) : List (List Char) :=
  linesAux [] text

/-- The longest start of a text that has no more than `maxLen` bytes. -/
@[grind =] def truncateAtCharBoundary : ℕ → List Char → List Char
  | _, [] => []
  | maxLen, c :: rest =>
      if c.utf8Size ≤ maxLen then c :: truncateAtCharBoundary (maxLen - c.utf8Size) rest else []

/-- `str::get` of the first `count` bytes, which must end at a character. -/
def getTo (count : ℕ) (text : List Char) : Option (List Char) :=
  let start := truncateAtCharBoundary count text
  if len start = count then some start else none

/-- `str::split_whitespace`, on the characters of a string. -/
def splitWhitespace (text : List Char) : List (List Char) :=
  (text.splitBy fun left right => isWhitespace left == isWhitespace right).filter fun part =>
    !part.any isWhitespace

/-- `str::is_ascii`. -/
def isAscii (text : List Char) : Bool :=
  text.all fun c => c.toNat < 128

/-- The value of a list of decimal digits. -/
def digitsValue (digits : List Char) : ℕ :=
  digits.foldl (fun value c => 10 * value + (c.toNat - '0'.toNat)) 0

/-- `str::parse::<u32>`: an optional plus sign and one or more ASCII digits, without overflow. -/
def parseU32 (text : List Char) : Option ℕ :=
  let digits := if text.head? = some '+' then text.tail else text
  if digits ≠ [] ∧ digits.all Char.isDigit ∧ digitsValue digits < 2 ^ 32 then
    some (digitsValue digits)
  else none

/-- `str::parse::<i32>`: an optional sign and one or more ASCII digits, without overflow. -/
def parseI32 (text : List Char) : Option ℤ :=
  let digits := if text.head? = some '+' ∨ text.head? = some '-' then text.tail else text
  let value : ℤ := if text.head? = some '-' then -digitsValue digits else digitsValue digits
  if digits ≠ [] ∧ digits.all Char.isDigit ∧ -2 ^ 31 ≤ value ∧ value < 2 ^ 31 then some value
  else none

/-- The characters of a literal need not be decoded from its bytes. -/
theorem not_mem_toList {text : String} {chars : List Char} {c : Char}
    (htext : text = String.ofList chars) (hc : c ∉ chars) : c ∉ text.toList := by
  rwa [htext, String.toList_ofList]

/-- A text contains a needle that stands somewhere in it. -/
theorem contains_iff {text needle : List Char} :
    contains text needle = true ↔ needle <:+: text := by
  rw [contains, List.any_eq_true, List.infix_iff_prefix_suffix]
  constructor
  · intro h
    obtain ⟨tail, htail, hlead⟩ := h
    exact ⟨tail, List.isPrefixOf_iff_prefix.mp hlead, (List.mem_tails tail text).mp htail⟩
  · intro h
    obtain ⟨tail, hlead, htail⟩ := h
    exact ⟨tail, (List.mem_tails tail text).mpr htail, List.isPrefixOf_iff_prefix.mpr hlead⟩

/-! ## Trimming -/

/-- Trimmed text stays as it is. -/
theorem trimChars_trimChars (text : List Char) : trimChars (trimChars text) = trimChars text := by
  have hlead : (trimChars text).dropWhile isWhitespace = trimChars text := by
    rw [List.dropWhile_eq_self_iff]
    intro hpos
    have hstart : trimChars text <+: text.dropWhile isWhitespace :=
      List.rdropWhile_prefix isWhitespace _
    rw [hstart.getElem hpos]
    exact List.dropWhile_eq_self_iff.mp (List.dropWhile_idempotent _ _)
      (Nat.lt_of_lt_of_le hpos hstart.length_le)
  calc trimChars (trimChars text)
      = trimEndMatches isWhitespace (trimChars text) := by rw [trimChars, hlead]
    _ = trimChars text := List.rdropWhile_idempotent _ _

/-- A trimmed text stays. -/
theorem trim_trim (text : String) : trim (trim text) = trim text := by
  rw [trim, trim, String.toList_ofList, trimChars_trimChars]

/-- Text without whitespace stays as it is. -/
theorem trimChars_eq_self {text : List Char} (h : ∀ c ∈ text, isWhitespace c = false) :
    trimChars text = text := by
  have hlead : text.dropWhile isWhitespace = text := by
    rw [List.dropWhile_eq_self_iff]
    intro hpos
    simp [h _ (List.getElem_mem hpos)]
  rw [trimChars, hlead]
  refine List.rdropWhile_eq_self_iff.mpr fun hne => ?_
  simp [h _ (List.getLast_mem hne)]

/-- Text of whitespace only. -/
def Blank (text : List Char) : Prop :=
  ∀ c ∈ text, isWhitespace c = true

instance (text : List Char) : Decidable (Blank text) :=
  List.decidableBAll (fun c => isWhitespace c = true) text

section Blank

variable {text blank : List Char} {c sep : Char}

/-- A blank text has blanks only. -/
theorem Blank.not_mem (h : Blank blank) (hc : isWhitespace c = false) : c ∉ blank := by
  intro hmem
  rw [h c hmem] at hc
  cases hc

/-- Blanks in front do not count. -/
theorem blank_append_trimChars (h : Blank blank) : trimChars (blank ++ text) = trimChars text := by
  rw [trimChars, List.dropWhile_append_of_pos h]
  rfl

/-- Blanks at the end do not count. -/
theorem trimEndMatches_append_blank (h : Blank blank) :
    trimEndMatches isWhitespace (text ++ blank) = trimEndMatches isWhitespace text := by
  rw [trimEndMatches, List.reverse_append,
    List.dropWhile_append_of_pos fun c hc => h c (List.mem_reverse.mp hc)]
  rfl

/-- Blanks behind do not count. -/
theorem trimChars_append_blank (h : Blank blank) : trimChars (text ++ blank) = trimChars text := by
  rw [trimChars, trimChars, List.dropWhile_append]
  split
  case isTrue hempty => rw [List.isEmpty_iff.mp hempty, List.dropWhile_eq_nil_iff.mpr h]
  case isFalse => rw [trimEndMatches_append_blank h]

/-- Of a blank text nothing is left. -/
theorem trimChars_blank (h : Blank blank) : trimChars blank = [] := by
  rw [← List.nil_append blank, trimChars_append_blank h]
  rfl

/-- A text is its trimmed part with whitespace around it. -/
theorem exists_eq_trimChars (text : List Char) :
    ∃ before behind, Blank before ∧ Blank behind ∧ text = before ++ trimChars text ++ behind := by
  refine ⟨text.takeWhile isWhitespace,
    ((text.dropWhile isWhitespace).reverse.takeWhile isWhitespace).reverse,
    fun c hc => List.mem_takeWhile_imp hc,
    fun c hc => List.mem_takeWhile_imp (List.mem_reverse.mp hc), ?_⟩
  rw [List.append_assoc, trimChars, trimEndMatches, ← List.reverse_append,
    List.takeWhile_append_dropWhile, List.reverse_reverse, List.takeWhile_append_dropWhile]

/-- Trimming removes nothing but whitespace. -/
theorem countP_trimChars (text : List Char) :
    (trimChars text).countP (fun c => !isWhitespace c) =
      text.countP fun c => !isWhitespace c := by
  obtain ⟨before, behind, hbefore, hbehind, htext⟩ := exists_eq_trimChars text
  have hzero : ∀ {blank : List Char}, Blank blank →
      blank.countP (fun c => !isWhitespace c) = 0 := by
    intro blank h
    rw [List.countP_eq_zero]
    intro c hc
    rw [h c hc]
    exact Bool.false_ne_true
  conv_rhs => rw [htext]
  rw [List.countP_append, List.countP_append, hzero hbefore, hzero hbehind]
  omega

/-- What can be put in front of a text without a change to the trimmed text is whitespace. -/
theorem trimChars_append_eq_iff {lead : List Char} :
    trimChars (lead ++ text) = trimChars text ↔ Blank lead := by
  refine ⟨fun h c hc => ?_, blank_append_trimChars⟩
  have hcount := congrArg (List.countP fun c => !isWhitespace c) h
  rw [countP_trimChars, countP_trimChars, List.countP_append] at hcount
  have hlead := List.countP_eq_zero.mp (show lead.countP (fun c => !isWhitespace c) = 0 by omega)
  simpa using hlead c hc

/-- Trimming adds nothing. -/
theorem mem_of_mem_trimChars (h : c ∈ trimChars text) : c ∈ text := by
  obtain ⟨before, behind, -, -, htext⟩ := exists_eq_trimChars text
  rw [htext]
  exact List.mem_append_left _ (List.mem_append_right _ h)

/-- Whitespace at the end is that behind the last other character. -/
theorem trimEnd_append_cons {lead rest : List Char} (hc : isWhitespace c = false) :
    trimEndMatches isWhitespace (lead ++ c :: rest) =
      lead ++ c :: trimEndMatches isWhitespace rest := by
  have hreverse : (lead ++ c :: rest).reverse = rest.reverse ++ c :: lead.reverse := by simp
  rw [trimEndMatches, trimEndMatches, hreverse, List.dropWhile_append]
  split
  case isTrue hempty =>
    rw [List.isEmpty_iff.mp hempty, List.dropWhile_cons, if_neg (by simp [hc])]
    simp
  case isFalse => simp

/-- The end is trimmed behind a text without blanks. -/
theorem trimEnd_append {lead rest : List Char} (hlead : ∀ c ∈ lead, isWhitespace c = false) :
    trimEndMatches isWhitespace (lead ++ rest) = lead ++ trimEndMatches isWhitespace rest := by
  induction lead with
  | nil => rfl
  | cons c lead ih =>
      obtain ⟨hc, hlead⟩ := List.forall_mem_cons.mp hlead
      rw [List.cons_append, ← List.nil_append (c :: (lead ++ rest)), trimEnd_append_cons hc,
        ih hlead]
      rfl

/-- Only the end is trimmed when the text does not start with a blank. -/
theorem trimChars_append {lead rest : List Char} (hne : lead ≠ [])
    (hlead : ∀ c ∈ lead, isWhitespace c = false) :
    trimChars (lead ++ rest) = lead ++ trimEndMatches isWhitespace rest := by
  have hstart : (lead ++ rest).dropWhile isWhitespace = lead ++ rest := by
    cases lead with
    | nil => exact absurd rfl hne
    | cons c lead =>
        rw [List.cons_append, List.dropWhile_cons, if_neg (by simp [hlead c List.mem_cons_self])]
  rw [trimChars, hstart, trimEnd_append hlead]

/-- What is trimmed at the end is blank. -/
theorem exists_eq_trimEnd (text : List Char) :
    ∃ behind, Blank behind ∧ text = trimEndMatches isWhitespace text ++ behind := by
  refine ⟨(text.reverse.takeWhile isWhitespace).reverse,
    fun c hc => List.mem_takeWhile_imp (List.mem_reverse.mp hc), ?_⟩
  rw [trimEndMatches, ← List.reverse_append, List.takeWhile_append_dropWhile, List.reverse_reverse]

/-- Trimming the end adds nothing. -/
theorem mem_of_mem_trimEnd (h : c ∈ trimEndMatches isWhitespace text) : c ∈ text := by
  obtain ⟨behind, -, htext⟩ := exists_eq_trimEnd text
  rw [htext]
  exact List.mem_append_left _ h

/-- The end may be trimmed first. -/
theorem trimChars_trimEnd (text : List Char) :
    trimChars (trimEndMatches isWhitespace text) = trimChars text := by
  obtain ⟨behind, hbehind, htext⟩ := exists_eq_trimEnd text
  calc trimChars (trimEndMatches isWhitespace text)
      = trimChars (trimEndMatches isWhitespace text ++ behind) :=
        (trimChars_append_blank hbehind).symm
    _ = trimChars text := by rw [← htext]

/-- Only what is trimmed goes, up to the last other character. -/
theorem trimEndMatches_append_replicate {count : ℕ} (h : c ∉ text) :
    trimEndMatches (· = c) (text ++ List.replicate count c) = text := by
  have hstop : text.reverse.dropWhile (fun last => decide (last = c)) = text.reverse := by
    rw [List.dropWhile_eq_self_iff]
    intro hpos heq
    have hmem := List.mem_reverse.mp (List.getElem_mem hpos)
    rw [of_decide_eq_true heq] at hmem
    exact h hmem
  have hall : ∀ last ∈ (List.replicate count c).reverse, decide (last = c) = true :=
    fun last hlast => decide_eq_true (List.mem_replicate.mp (List.mem_reverse.mp hlast)).2
  rw [trimEndMatches, List.reverse_append, List.dropWhile_append_of_pos hall, hstop,
    List.reverse_reverse]

/-- Of a blank text nothing is left at the end. -/
theorem trimEnd_blank (h : Blank blank) : trimEndMatches isWhitespace blank = [] := by
  rw [trimEndMatches, List.dropWhile_eq_nil_iff.mpr fun c hc => h c (List.mem_reverse.mp hc)]
  rfl

variable (text) in
/-- Blanks behind belong to the last part. -/
theorem splitOn_append (hsep : sep ∉ blank) :
    ∃ parts last, text.splitOn sep = parts ++ [last] ∧
      (text ++ blank).splitOn sep = parts ++ [last ++ blank] := by
  induction text with
  | nil => exact ⟨[], [], List.splitOn_nil sep, List.splitOn_eq_singleton hsep⟩
  | cons c rest ih =>
      obtain ⟨parts, last, hparts, happend⟩ := ih
      rw [List.cons_append, List.splitOn_cons_eq_if_modifyHead, List.splitOn_cons_eq_if_modifyHead,
        hparts, happend]
      by_cases hc : (c == sep) = true
      · rw [if_pos hc, if_pos hc]
        exact ⟨[] :: parts, last, rfl, rfl⟩
      · rw [if_neg hc, if_neg hc]
        cases parts with
        | nil => exact ⟨[], c :: last, rfl, rfl⟩
        | cons part parts => exact ⟨(c :: part) :: parts, last, rfl, rfl⟩

/-- Blanks in front belong to the first part. -/
theorem splitOn_cons_append (hsep : sep ∉ blank) :
    (blank ++ text).splitOn sep = (text.splitOn sep).modifyHead (blank ++ ·) := by
  induction blank with
  | nil =>
      rw [List.nil_append]
      cases text.splitOn sep <;> rfl
  | cons c rest ih =>
      rw [List.mem_cons, not_or] at hsep
      rw [List.cons_append, List.splitOn_cons_eq_if_modifyHead,
        if_neg (by simpa using Ne.symm hsep.1), ih hsep.2]
      cases text.splitOn sep <;> rfl

/-- The parts of a text are those of the trimmed text, but for whitespace around them. -/
theorem map_trimChars_splitOn (hsep : isWhitespace sep = false) :
    ((trimChars text).splitOn sep).map trimChars = (text.splitOn sep).map trimChars := by
  obtain ⟨before, behind, hbefore, hbehind, htext⟩ := exists_eq_trimChars text
  have hlead : (before ++ trimChars text).splitOn sep =
      ((trimChars text).splitOn sep).modifyHead (before ++ ·) :=
    splitOn_cons_append (hbefore.not_mem hsep)
  obtain ⟨parts, last, hparts, happend⟩ :=
    splitOn_append (before ++ trimChars text) (hbehind.not_mem hsep)
  calc ((trimChars text).splitOn sep).map trimChars
      = (((trimChars text).splitOn sep).modifyHead (before ++ ·)).map trimChars := by
        cases (trimChars text).splitOn sep with
        | nil => rfl
        | cons part rest =>
            rw [List.modifyHead_cons, List.map_cons, List.map_cons, blank_append_trimChars hbefore]
    _ = (parts ++ [last]).map trimChars := by rw [← hlead, hparts]
    _ = (parts ++ [last ++ behind]).map trimChars := by
        rw [List.map_append, List.map_append, List.map_singleton, List.map_singleton,
          trimChars_append_blank hbehind]
    _ = (text.splitOn sep).map trimChars := by rw [← happend, ← htext]

/-- The trimmed parts do not depend on blanks at the end. -/
theorem map_trimChars_splitOn_trimEnd (hsep : isWhitespace sep = false) :
    ((trimEndMatches isWhitespace text).splitOn sep).map trimChars =
      (text.splitOn sep).map trimChars := by
  rw [← map_trimChars_splitOn hsep, trimChars_trimEnd, map_trimChars_splitOn hsep]

/-- A text without the separator is not split. -/
theorem splitOnce_eq_none (h : sep ∉ text) : splitOnce sep text = none := by
  have hall : text.dropWhile (fun c => decide (c ≠ sep)) = [] :=
    List.dropWhile_eq_nil_iff.mpr fun c hc => decide_eq_true fun heq => h (heq ▸ hc)
  rw [splitOnce, List.span_eq_takeWhile_dropWhile, hall]

/-- A text is split at its first separator. -/
theorem splitOnce_append {lead rest : List Char} (h : sep ∉ lead) :
    splitOnce sep (lead ++ sep :: rest) = some (lead, rest) := by
  have hall : ∀ c ∈ lead, decide (c ≠ sep) = true := fun c hc =>
    decide_eq_true fun heq => h (heq ▸ hc)
  rw [splitOnce, List.span_eq_takeWhile_dropWhile, List.takeWhile_append_of_pos hall,
    List.dropWhile_append_of_pos hall, List.takeWhile_cons_of_neg (by simp),
    List.dropWhile_cons_of_neg (by simp), List.append_nil]

end Blank

/-! ## Joined texts -/

section Joined

variable {sep : Char} {text part : List Char} {parts : List (List Char)}

/-- No part has the separator. -/
theorem not_mem_of_mem_splitOn (h : part ∈ text.splitOn sep) : sep ∉ part := by
  induction text generalizing part with
  | nil =>
      rw [List.splitOn_nil, List.mem_singleton] at h
      rw [h]
      exact List.not_mem_nil
  | cons c rest ih =>
      rw [List.splitOn_cons_eq_if_modifyHead] at h
      split at h
      case isTrue =>
        rcases List.mem_cons.mp h with rfl | hpart
        · exact List.not_mem_nil
        · exact ih hpart
      case isFalse hc =>
        obtain ⟨first, others, hparts⟩ := List.exists_cons_of_ne_nil (List.splitOn_ne_nil sep rest)
        rw [hparts, List.modifyHead_cons, List.mem_cons] at h
        rw [hparts] at ih
        rcases h with rfl | hpart
        · have hfirst : sep ∉ first := ih List.mem_cons_self
          have hne : sep ≠ c := fun heq => hc (beq_iff_eq.mpr heq.symm)
          simp [hne, hfirst]
        · exact ih (List.mem_cons_of_mem _ hpart)

/-- Joined texts come apart again when none of them has the separator in it. -/
theorem splitOn_intercalate_iff (hne : parts ≠ []) :
    ([sep].intercalate parts).splitOn sep = parts ↔ ∀ part ∈ parts, sep ∉ part := by
  constructor
  · intro h part hpart
    rw [← h] at hpart
    exact not_mem_of_mem_splitOn hpart
  · intro h
    exact List.splitOn_intercalate sep h hne

/-- Joined texts are empty when there is none of them, or just an empty one. -/
theorem intercalate_eq_nil_iff : [sep].intercalate parts = [] ↔ parts = [] ∨ parts = [[]] := by
  cases parts with
  | nil => exact iff_of_true rfl (Or.inl rfl)
  | cons first rest =>
      cases rest with
      | nil => simp
      | cons second rest => simp [List.intercalate_cons_cons]

end Joined

/-! ## Written numbers -/

/-- The value of some digits, in the terms of Mathlib. -/
theorem digitsValue_eq (digits : List Char) : digitsValue digits = Nat.ofDigitChars 10 digits 0 :=
  Nat.ofDigitChars_eq_foldl.symm

/-- The value of a written number. -/
theorem digitsValue_repr (number : ℕ) : digitsValue (Nat.repr number).toList = number := by
  rw [digitsValue_eq, Nat.toList_repr, Nat.ofDigitChars_ten_toDigits]

/-- The digits of a number tell it. -/
theorem repr_injective : Function.Injective fun number => (Nat.repr number).toList := by
  intro left right h
  rw [← digitsValue_repr left, ← digitsValue_repr right]
  exact congrArg digitsValue h

/-- The code points of digits. -/
theorem toNat_of_isDigit {c : Char} (h : c.isDigit = true) : 48 ≤ c.toNat ∧ c.toNat ≤ 57 := by
  simpa [Char.isDigit, UInt32.le_iff_toNat_le] using h

/-- Each digit is that of its value. -/
theorem exists_digitChar {c : Char} (h : c.isDigit = true) :
    ∃ digit, digit < 10 ∧ c = digit.digitChar := by
  obtain ⟨hlow, hhigh⟩ := toNat_of_isDigit h
  have hdigit : c.toNat - 48 < 10 := by omega
  have hchar : (c.toNat - 48).digitChar.isDigit = true := by
    rw [Nat.isDigit_digitChar, decide_eq_true hdigit]
  have hvalue := Nat.toNat_digitChar_sub_48_of_lt_ten hdigit
  obtain ⟨hlow', -⟩ := toNat_of_isDigit hchar
  exact ⟨c.toNat - 48, hdigit, Char.toNat_inj.mp (by omega)⟩

/-- Digits without a leading zero are how their value is written. -/
theorem repr_digitsValue {digits : List Char} (hne : digits ≠ [])
    (hdigits : ∀ c ∈ digits, c.isDigit = true) (hzero : digits.head? ≠ some '0') :
    (Nat.repr (digitsValue digits)).toList = digits ∧ 0 < digitsValue digits := by
  induction digits using List.reverseRecOn with
  | nil => exact absurd rfl hne
  | append_singleton front c ih =>
      obtain ⟨digit, hdigit, rfl⟩ := exists_digitChar (hdigits c (by simp))
      have hvalue : digitsValue (front ++ [digit.digitChar]) = 10 * digitsValue front + digit := by
        have hlast := Nat.toNat_digitChar_sub_48_of_lt_ten hdigit
        rw [digitsValue, List.foldl_append]
        exact congrArg _ hlast
      rw [hvalue, Nat.toList_repr]
      by_cases hfront : front = []
      · subst hfront
        have hpositive : digit ≠ 0 := by
          intro h
          subst h
          exact hzero rfl
        have hnil : digitsValue [] = 0 := rfl
        rw [hnil, Nat.mul_zero, Nat.zero_add, Nat.toDigits_of_lt_base hdigit]
        exact ⟨rfl, by omega⟩
      · have hhead : front.head? ≠ some '0' := by
          rwa [List.head?_append_of_ne_nil _ hfront] at hzero
        obtain ⟨hrepr, hpositive⟩ := ih hfront (fun c hc => hdigits c (by simp [hc])) hhead
        rw [Nat.toList_repr] at hrepr
        rw [← Nat.toDigits_append_toDigits (by omega) hpositive hdigit, hrepr,
          Nat.toDigits_of_lt_base hdigit]
        exact ⟨rfl, by omega⟩

/-- A number is written with digits. -/
theorem isDigit_of_mem_repr {number : ℕ} {c : Char} (h : c ∈ (Nat.repr number).toList) :
    c.isDigit = true := by
  rw [Nat.toList_repr] at h
  exact Nat.isDigit_of_mem_toDigits (by omega) (by omega) h

/-- A number has a digit. -/
theorem repr_ne_nil (number : ℕ) : (Nat.repr number).toList ≠ [] := by
  rw [Nat.toList_repr]
  exact Nat.toDigits_ne_nil

end Text
