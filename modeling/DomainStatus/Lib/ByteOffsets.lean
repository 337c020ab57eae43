import DomainStatus.Lib.Text
import Mathlib.Order.Bounds.Basic

/-!
# Byte offsets in a text

Texts are lists of characters, and their offsets count the bytes of UTF-8. An offset is a boundary
when it does not lie inside of a character, and only text between two boundaries can be sliced out.
Read `slice_append` first: to slice is to cut the list of characters.
-/

namespace Text

/-- `str::is_char_boundary`. -/
@[grind =] def isCharBoundary : List Char → ℕ → Bool
  | _, 0 => true
  | [], _ + 1 => false
  | c :: rest, offset + 1 =>
      c.utf8Size ≤ offset + 1 && isCharBoundary rest (offset + 1 - c.utf8Size)

/-- `while end > 0 && !text.is_char_boundary(end) { end -= 1 }`. -/
@[grind =] def stepBack (text : List Char) : ℕ → ℕ
  | 0 => 0
  | stop + 1 => if isCharBoundary text (stop + 1) then stop + 1 else stepBack text stop

/-- The text from an offset on. -/
@[grind =] def dropBytes : ℕ → List Char → List Char
  | _, [] => []
  | count, c :: rest =>
      if c.utf8Size ≤ count then dropBytes (count - c.utf8Size) rest else c :: rest

/-- `&text[start..stop]`. It panics off a boundary. -/
@[grind =] def slice (text : List Char) (start stop : ℕ) : Option (List Char) :=
  if start ≤ stop ∧ isCharBoundary text start ∧ isCharBoundary text stop then
    some (truncateAtCharBoundary (stop - start) (dropBytes start text))
  else none

variable {text lead mid rest : List Char} {start stop offset : ℕ}

@[simp] theorem len_nil : len [] = 0 := rfl

@[simp] theorem len_cons (c : Char) : len (c :: rest) = c.utf8Size + len rest := by
  simp [len]

@[simp] theorem len_append : len (lead ++ rest) = len lead + len rest := by
  simp [len]

/-- The bytes of a repeated character. -/
theorem len_replicate (count : ℕ) (c : Char) :
    len (List.replicate count c) = count * c.utf8Size := by
  simp [len]

/-- The bytes of a string are those of its characters. -/
theorem utf8ByteSize_ofList (text : List Char) : (String.ofList text).utf8ByteSize = len text := by
  induction text with
  | nil => rfl
  | cons c rest ih =>
      rw [String.ofList_cons, String.utf8ByteSize_append, String.utf8ByteSize_singleton, ih,
        len_cons]

/-- Each character has a byte. -/
theorem eq_nil_of_len_eq_zero (h : len text = 0) : text = [] := by
  cases text with
  | nil => rfl
  | cons c rest =>
      have hpos := c.utf8Size_pos
      rw [len_cons] at h
      omega

/-- Lower case has as many bytes. -/
theorem utf8Size_toLower (c : Char) : c.toLower.utf8Size = c.utf8Size := by
  unfold Char.toLower
  split
  case isTrue h =>
    have hsmall : c.utf8Size = 1 := by
      rw [Char.utf8Size_eq_one_iff]
      grind
    rw [hsmall, Char.utf8Size_eq_one_iff]
    grind
  case isFalse => rfl

/-- A change of case in ASCII keeps the bytes. -/
theorem len_map_toLower (text : List Char) : len (text.map Char.toLower) = len text := by
  simp [len, Function.comp_def, utf8Size_toLower]

/-- The shorter start of a text is a start of the longer one. -/
theorem append_eq_append_of_len_le {a b c d : List Char} (h : a ++ b = c ++ d)
    (hle : len a ≤ len c) : ∃ e, c = a ++ e ∧ b = e ++ d := by
  rcases List.append_eq_append_iff.mp h with hleft | ⟨e, ha, hd⟩
  · exact hleft
  · rw [ha, len_append] at hle
    have hnil : e = [] := eq_nil_of_len_eq_zero (by omega)
    rw [hnil, List.append_nil] at ha
    rw [hnil, List.nil_append] at hd
    exact ⟨[], by rw [ha, List.append_nil], by rw [hd, List.nil_append]⟩

/-! ## Boundaries -/

@[simp] theorem isCharBoundary_zero : isCharBoundary text 0 = true := by
  cases text <;> rfl

/-- A boundary behind the first character is one of the rest. -/
theorem isCharBoundary_cons {c : Char} (h : 0 < offset) :
    isCharBoundary (c :: rest) offset = true ↔
      c.utf8Size ≤ offset ∧ isCharBoundary rest (offset - c.utf8Size) = true := by
  obtain ⟨offset, rfl⟩ : ∃ before, offset = before + 1 := ⟨offset - 1, by omega⟩
  rw [isCharBoundary, Bool.and_eq_true, decide_eq_true_eq]

/-- An offset is a boundary when it is the length of a start of the text. -/
theorem isCharBoundary_iff :
    isCharBoundary text offset = true ↔ ∃ lead rest, text = lead ++ rest ∧ len lead = offset := by
  induction text generalizing offset with
  | nil =>
      constructor
      · intro h
        cases offset with
        | zero => exact ⟨[], [], rfl, rfl⟩
        | succ offset => cases h
      · intro h
        obtain ⟨lead, rest, htext, rfl⟩ := h
        rw [(List.append_eq_nil_iff.mp htext.symm).1]
        rfl
  | cons c tail ih =>
      constructor
      · intro h
        rcases Nat.eq_zero_or_pos offset with rfl | hpos
        · exact ⟨[], c :: tail, rfl, rfl⟩
        · obtain ⟨hsize, hrest⟩ := (isCharBoundary_cons hpos).mp h
          obtain ⟨lead, rest, rfl, hlen⟩ := ih.mp hrest
          refine ⟨c :: lead, rest, rfl, ?_⟩
          rw [len_cons]
          omega
      · intro h
        obtain ⟨lead, rest, htext, rfl⟩ := h
        cases lead with
        | nil => exact isCharBoundary_zero
        | cons first lead =>
            obtain ⟨rfl, rfl⟩ := List.cons.inj htext
            have hsize := c.utf8Size_pos
            rw [len_cons, isCharBoundary_cons (by omega), Nat.add_sub_cancel_left]
            exact ⟨Nat.le_add_right _ _, ih.mpr ⟨lead, rest, rfl, rfl⟩⟩

/-- The end of a text is a boundary. -/
theorem isCharBoundary_len : isCharBoundary text (len text) = true :=
  isCharBoundary_iff.mpr ⟨text, [], (List.append_nil text).symm, rfl⟩

/-- A boundary is not beyond the end. -/
theorem le_len_of_isCharBoundary (h : isCharBoundary text offset = true) : offset ≤ len text := by
  obtain ⟨lead, rest, rfl, rfl⟩ := isCharBoundary_iff.mp h
  rw [len_append]
  exact Nat.le_add_right _ _

/-- Text in front moves the boundaries. -/
theorem isCharBoundary_append :
    isCharBoundary (lead ++ rest) (len lead + offset) = isCharBoundary rest offset := by
  induction lead with
  | nil => rw [List.nil_append, len_nil, Nat.zero_add]
  | cons c lead ih =>
      have hpos := c.utf8Size_pos
      have hrest : c.utf8Size + len lead + offset - c.utf8Size = len lead + offset := by omega
      rw [Bool.eq_iff_iff, List.cons_append, len_cons, isCharBoundary_cons (by omega), hrest, ih]
      exact and_iff_right (by omega)

/-- Text behind leaves the boundaries as they are. -/
theorem isCharBoundary_append_left (h : offset ≤ len lead) :
    isCharBoundary (lead ++ rest) offset = isCharBoundary lead offset := by
  rw [Bool.eq_iff_iff, isCharBoundary_iff, isCharBoundary_iff]
  constructor
  · intro hboundary
    obtain ⟨front, back, htext, rfl⟩ := hboundary
    obtain ⟨behind, hlead, -⟩ := append_eq_append_of_len_le htext.symm h
    exact ⟨front, behind, hlead, rfl⟩
  · intro hboundary
    obtain ⟨front, back, rfl, hfront⟩ := hboundary
    exact ⟨front, back ++ rest, List.append_assoc .., hfront⟩

/-- Two boundaries cut a text in three. -/
theorem exists_append_of_isCharBoundary (hle : start ≤ stop)
    (hstart : isCharBoundary text start = true) (hstop : isCharBoundary text stop = true) :
    ∃ lead mid rest, text = lead ++ mid ++ rest ∧ len lead = start ∧ len lead + len mid = stop := by
  induction text generalizing start stop with
  | nil =>
      have hzero := le_len_of_isCharBoundary hstop
      rw [len_nil] at hzero
      exact ⟨[], [], [], rfl, by rw [len_nil]; omega, by rw [len_nil]; omega⟩
  | cons c tail ih =>
      rcases Nat.eq_zero_or_pos start with rfl | hpos
      · obtain ⟨lead, rest, htext, rfl⟩ := isCharBoundary_iff.mp hstop
        exact ⟨[], lead, rest, htext, rfl, Nat.zero_add _⟩
      · obtain ⟨hsize, hstart⟩ := (isCharBoundary_cons hpos).mp hstart
        obtain ⟨-, hstop⟩ := (isCharBoundary_cons (Nat.lt_of_lt_of_le hpos hle)).mp hstop
        obtain ⟨lead, mid, rest, rfl, hlead, hmid⟩ := ih (by omega) hstart hstop
        refine ⟨c :: lead, mid, rest, rfl, ?_, ?_⟩
        · rw [len_cons]
          omega
        · rw [len_cons]
          omega

/-- A character has at most four bytes, so there is a boundary at most three bytes before. -/
theorem exists_isCharBoundary_le (h : offset ≤ len text) :
    ∃ before, isCharBoundary text before = true ∧ before ≤ offset ∧ offset < before + 4 := by
  induction text generalizing offset with
  | nil => exact ⟨0, rfl, Nat.zero_le _, by rw [len_nil] at h; omega⟩
  | cons c tail ih =>
      rw [len_cons] at h
      by_cases hsize : c.utf8Size ≤ offset
      · obtain ⟨before, hboundary, hle, hlt⟩ := ih (by omega : offset - c.utf8Size ≤ len tail)
        have hpos := c.utf8Size_pos
        refine ⟨before + c.utf8Size, ?_, by omega, by omega⟩
        rw [isCharBoundary_cons (by omega), Nat.add_sub_cancel]
        exact ⟨Nat.le_add_left _ _, hboundary⟩
      · have hfour := c.utf8Size_le_four
        exact ⟨0, isCharBoundary_zero, Nat.zero_le _, by omega⟩

/-- There is a boundary at most three bytes behind. -/
theorem exists_isCharBoundary_ge (h : offset ≤ len text) :
    ∃ behind, isCharBoundary text behind = true ∧ offset ≤ behind ∧ behind < offset + 4 := by
  induction text generalizing offset with
  | nil => exact ⟨0, rfl, h, by omega⟩
  | cons c tail ih =>
      rw [len_cons] at h
      have hpos := c.utf8Size_pos
      by_cases hsize : c.utf8Size ≤ offset
      · obtain ⟨behind, hboundary, hle, hlt⟩ := ih (by omega : offset - c.utf8Size ≤ len tail)
        refine ⟨behind + c.utf8Size, ?_, by omega, by omega⟩
        rw [isCharBoundary_cons (by omega), Nat.add_sub_cancel]
        exact ⟨Nat.le_add_left _ _, hboundary⟩
      · rcases Nat.eq_zero_or_pos offset with rfl | hoffset
        · exact ⟨0, isCharBoundary_zero, Nat.le_refl _, by omega⟩
        · have hfour := c.utf8Size_le_four
          refine ⟨c.utf8Size, ?_, by omega, by omega⟩
          rw [isCharBoundary_cons hpos, Nat.sub_self]
          exact ⟨Nat.le_refl _, isCharBoundary_zero⟩

/-! ## Stepping back -/

/-- A step back does not go forward. -/
theorem stepBack_le : stepBack text offset ≤ offset := by
  induction offset with
  | zero => exact Nat.le_refl 0
  | succ offset ih =>
      rw [stepBack]
      split
      · exact Nat.le_refl _
      · exact Nat.le_succ_of_le ih

/-- A step back ends at a boundary. -/
theorem isCharBoundary_stepBack : isCharBoundary text (stepBack text offset) = true := by
  induction offset with
  | zero => exact isCharBoundary_zero
  | succ offset ih =>
      rw [stepBack]
      split
      · assumption
      · exact ih

/-- Stepping back ends at the first boundary it meets. -/
theorem le_stepBack (hstart : isCharBoundary text start = true) (hle : start ≤ offset) :
    start ≤ stepBack text offset := by
  induction offset with
  | zero => exact hle
  | succ offset ih =>
      rw [stepBack]
      split
      case isTrue => exact hle
      case isFalse hnot =>
        have hne : start ≠ offset + 1 := fun heq => hnot (heq ▸ hstart)
        exact ih (by omega)

/-! ## Slices -/

/-- The bytes of a lead are dropped as a whole. -/
theorem dropBytes_append : dropBytes (len lead) (lead ++ rest) = rest := by
  induction lead with
  | nil =>
      cases rest with
      | nil => rfl
      | cons c rest =>
          have hpos := c.utf8Size_pos
          rw [List.nil_append, len_nil, dropBytes, if_neg (by omega)]
  | cons c lead ih =>
      rw [List.cons_append, dropBytes, len_cons, if_pos (Nat.le_add_right _ _),
        Nat.add_sub_cancel_left, ih]

/-- The bytes of a lead are kept as a whole. -/
theorem truncateAtCharBoundary_append :
    truncateAtCharBoundary (len lead) (lead ++ rest) = lead := by
  induction lead with
  | nil =>
      cases rest with
      | nil => rfl
      | cons c rest =>
          have hpos := c.utf8Size_pos
          rw [List.nil_append, len_nil, truncateAtCharBoundary, if_neg (by omega)]
  | cons c lead ih =>
      rw [List.cons_append, truncateAtCharBoundary, len_cons, if_pos (Nat.le_add_right _ _),
        Nat.add_sub_cancel_left, ih]

/-- The slice between two parts is what stands between them. -/
theorem slice_append : slice (lead ++ mid ++ rest) (len lead) (len lead + len mid) = some mid := by
  have hstart : isCharBoundary (lead ++ mid ++ rest) (len lead) = true :=
    isCharBoundary_iff.mpr ⟨lead, mid ++ rest, List.append_assoc .., rfl⟩
  have hstop : isCharBoundary (lead ++ mid ++ rest) (len lead + len mid) = true :=
    isCharBoundary_iff.mpr ⟨lead ++ mid, rest, rfl, len_append⟩
  rw [slice, if_pos ⟨Nat.le_add_right _ _, hstart, hstop⟩, List.append_assoc, dropBytes_append,
    Nat.add_sub_cancel_left, truncateAtCharBoundary_append]

/-- The slice behind a lead is the rest. -/
theorem slice_rest : slice (lead ++ rest) (len lead) (len (lead ++ rest)) = some rest := by
  have hslice := @slice_append lead rest []
  rwa [List.append_nil, ← len_append] at hslice

/-- A slice is a part of the text between its offsets. -/
theorem exists_append_of_slice (h : slice text start stop = some mid) :
    ∃ lead rest, text = lead ++ mid ++ rest ∧ len lead = start ∧ len lead + len mid = stop := by
  unfold slice at h
  split at h
  case isTrue hbounds =>
    obtain ⟨lead, part, rest, rfl, rfl, rfl⟩ :=
      exists_append_of_isCharBoundary hbounds.1 hbounds.2.1 hbounds.2.2
    rw [Nat.add_sub_cancel_left, List.append_assoc, dropBytes_append,
      truncateAtCharBoundary_append, Option.some.injEq] at h
    subst h
    exact ⟨lead, rest, rfl, rfl, rfl⟩
  case isFalse => cases h

/-- The slices are the parts of the text. -/
theorem slice_eq_some_iff :
    slice text start stop = some mid ↔
      ∃ lead rest, text = lead ++ mid ++ rest ∧ len lead = start ∧ len lead + len mid = stop := by
  constructor
  · exact exists_append_of_slice
  · intro h
    obtain ⟨lead, rest, rfl, rfl, rfl⟩ := h
    exact slice_append

/-- The length of a slice. -/
theorem len_slice (h : slice text start stop = some mid) : len mid = stop - start := by
  obtain ⟨lead, rest, -, rfl, rfl⟩ := exists_append_of_slice h
  omega

/-- A slice from the start is a prefix. -/
theorem prefix_of_slice (h : slice text 0 stop = some mid) : mid <+: text := by
  obtain ⟨lead, rest, rfl, hlead, -⟩ := exists_append_of_slice h
  rw [eq_nil_of_len_eq_zero hlead]
  exact ⟨rest, rfl⟩

/-- A slice to the end is a suffix. -/
theorem suffix_of_slice (h : slice text start (len text) = some mid) : mid <:+ text := by
  obtain ⟨lead, rest, htext, -, hmid⟩ := exists_append_of_slice h
  have hnil : rest = [] := by
    rw [htext, len_append, len_append] at hmid
    exact eq_nil_of_len_eq_zero (by omega)
  rw [htext, hnil]
  exact ⟨lead, (List.append_nil _).symm⟩

/-- A slice up to a place is an end of the text before it. -/
theorem exists_eq_append_of_slice_front {front back : List Char}
    (h : slice (front ++ back) start (len front) = some mid) :
    ∃ before, front = before ++ mid ∧ len before = start := by
  obtain ⟨before, behind, htext, hbefore, hlen⟩ := exists_append_of_slice h
  obtain ⟨extra, hextra, -⟩ := append_eq_append_of_len_le htext (by rw [len_append]; omega)
  have hnil : extra = [] := by
    have hsame := congrArg len hextra
    rw [len_append, len_append] at hsame
    exact eq_nil_of_len_eq_zero (by omega)
  rw [hnil, List.append_nil] at hextra
  exact ⟨before, hextra.symm, hbefore⟩

/-- A slice from a place on is a start of the text behind it. -/
theorem exists_eq_append_of_slice_back {front back : List Char}
    (h : slice (front ++ back) (len front) stop = some mid) :
    ∃ behind, back = mid ++ behind ∧ len front + len mid = stop := by
  obtain ⟨before, behind, htext, hbefore, hlen⟩ := exists_append_of_slice h
  rw [List.append_assoc] at htext
  obtain ⟨extra, hextra, hrest⟩ := append_eq_append_of_len_le htext (by omega)
  have hnil : extra = [] := by
    have hsame := congrArg len hextra
    rw [len_append] at hsame
    exact eq_nil_of_len_eq_zero (by omega)
  rw [hnil, List.nil_append] at hrest
  exact ⟨behind, hrest, by omega⟩

/-- A slice from the start panics where it ends inside of a character. -/
theorem slice_zero_eq_none_iff : slice text 0 stop = none ↔ isCharBoundary text stop = false := by
  simp [slice]

/-- Slices at boundaries never panic, and neighbouring ones make up one slice. -/
theorem slice_append_slice {middle : ℕ} (hfront : start ≤ middle) (hback : middle ≤ stop)
    (hstart : isCharBoundary text start = true) (hmiddle : isCharBoundary text middle = true)
    (hstop : isCharBoundary text stop = true) :
    ∃ front back, slice text start middle = some front ∧ slice text middle stop = some back ∧
      slice text start stop = some (front ++ back) := by
  obtain ⟨lead, front, rest, htext, rfl, rfl⟩ :=
    exists_append_of_isCharBoundary hfront hstart hmiddle
  obtain ⟨before, back, tail, hsame, hbefore, rfl⟩ :=
    exists_append_of_isCharBoundary hback hmiddle hstop
  -- both cuts agree on what stands before the middle
  have hcut : before = lead ++ front := by
    calc before = truncateAtCharBoundary (len before) (before ++ (back ++ tail)) :=
          truncateAtCharBoundary_append.symm
      _ = truncateAtCharBoundary (len (lead ++ front)) ((lead ++ front) ++ rest) := by
          rw [← List.append_assoc, ← hsame, htext, hbefore, len_append]
      _ = lead ++ front := truncateAtCharBoundary_append
  subst hcut
  refine ⟨front, back, ?_, ?_, ?_⟩
  · exact slice_eq_some_iff.mpr ⟨lead, rest, htext, rfl, rfl⟩
  · exact slice_eq_some_iff.mpr ⟨lead ++ front, tail, hsame, hbefore, rfl⟩
  · refine slice_eq_some_iff.mpr ⟨lead, tail, ?_, rfl, ?_⟩
    · rw [hsame, List.append_assoc lead front back]
    · rw [len_append, len_append, Nat.add_assoc]

/-- A slice ends where it starts plus its length. -/
theorem add_len_slice (h : slice text start stop = some mid) : start + len mid = stop := by
  obtain ⟨lead, rest, -, rfl, rfl⟩ := exists_append_of_slice h
  rfl

/-- The boundaries of a slice are those of the text. -/
theorem isCharBoundary_slice (h : slice text start stop = some mid) (hle : offset ≤ len mid) :
    isCharBoundary mid offset = isCharBoundary text (start + offset) := by
  obtain ⟨lead, rest, rfl, rfl, -⟩ := exists_append_of_slice h
  rw [List.append_assoc, isCharBoundary_append, isCharBoundary_append_left hle]

/-- Neighbouring slices make up one slice. -/
theorem slice_join {middle : ℕ} {front back : List Char}
    (hfront : slice text start middle = some front) (hback : slice text middle stop = some back) :
    slice text start stop = some (front ++ back) := by
  obtain ⟨lead, rest, rfl, rfl, rfl⟩ := exists_append_of_slice hfront
  obtain ⟨before, tail, htext, hbefore, rfl⟩ := exists_append_of_slice hback
  have hsame : lead ++ front = before ∧ rest = back ++ tail := by
    rw [List.append_assoc before] at htext
    obtain ⟨extra, hextra, hrest⟩ := append_eq_append_of_len_le htext (by rw [len_append]; omega)
    have hnil : extra = [] := by
      rw [hextra, len_append, len_append] at hbefore
      exact eq_nil_of_len_eq_zero (by omega)
    rw [hnil, List.append_nil] at hextra
    rw [hnil, List.nil_append] at hrest
    exact ⟨hextra.symm, hrest⟩
  rw [hsame.2, hbefore]
  refine slice_eq_some_iff.mpr ⟨lead, tail, ?_, rfl, ?_⟩
  · simp only [List.append_assoc]
  · rw [len_append, Nat.add_assoc]

/-- To slice a slice is to slice the text. -/
theorem slice_slice {first last : ℕ} (h : slice text start stop = some mid)
    (hlast : last ≤ len mid) :
    slice mid first last = slice text (start + first) (start + last) := by
  obtain ⟨lead, rest, rfl, rfl, rfl⟩ := exists_append_of_slice h
  refine Option.ext fun part => ?_
  rw [slice_eq_some_iff, slice_eq_some_iff]
  constructor
  · intro h
    obtain ⟨before, behind, rfl, rfl, rfl⟩ := h
    refine ⟨lead ++ before, behind ++ rest, ?_, ?_, ?_⟩
    · simp only [List.append_assoc]
    · rw [len_append]
    · rw [len_append, Nat.add_assoc]
  · intro h
    obtain ⟨before, behind, htext, hbefore, hpart⟩ := h
    rw [List.append_assoc, List.append_assoc] at htext
    obtain ⟨front, rfl, htail⟩ := append_eq_append_of_len_le htext (by omega)
    rw [len_append] at hbefore hpart
    rw [← List.append_assoc] at htail
    obtain ⟨back, hmid, -⟩ := append_eq_append_of_len_le htail.symm (by rw [len_append]; omega)
    exact ⟨front, back, hmid, by omega, by omega⟩

/-! ## The longest start -/

/-- The longest start of a text with a property. -/
structure IsLongestStart (text : List Char) (P : List Char → Prop) (head : List Char) : Prop where
  start : head <+: text
  holds : P head
  longest : ∀ other, other <+: text → P other → other <+: head

/-- The longest end of a text with a property. -/
structure IsLongestEnd (text : List Char) (P : List Char → Prop) (tail : List Char) : Prop where
  stop : tail <:+ text
  holds : P tail
  longest : ∀ other, other <:+ text → P other → other <:+ tail

/-- Of two starts of a text, the one with fewer bytes is a start of the other. -/
theorem prefix_of_prefix_len_le {head other : List Char} (hhead : head <+: text)
    (hother : other <+: text) (hle : len head ≤ len other) : head <+: other := by
  obtain ⟨rest, rfl⟩ := hhead
  obtain ⟨tail, htail⟩ := hother
  obtain ⟨part, hpart, -⟩ := append_eq_append_of_len_le htail.symm hle
  exact ⟨part, hpart.symm⟩

/-- Of two ends of a text, the one that starts later is an end of the other. -/
theorem suffix_of_suffix_len_le {tail other : List Char} (htail : tail <:+ text)
    (hother : other <:+ text) (hle : len tail ≤ len other) : tail <:+ other := by
  obtain ⟨lead, rfl⟩ := htail
  obtain ⟨front, hfront⟩ := hother
  have hlen := congrArg len hfront
  rw [len_append, len_append] at hlen
  obtain ⟨part, -, hpart⟩ := append_eq_append_of_len_le hfront (by omega)
  exact ⟨part, hpart.symm⟩

/-- The longest start of a text that has no more than so many bytes. -/
theorem truncateAtCharBoundary_isLongestStart (count : ℕ) (text : List Char) :
    IsLongestStart text (fun head => len head ≤ count) (truncateAtCharBoundary count text) := by
  induction text generalizing count with
  | nil => exact ⟨List.nil_prefix, Nat.zero_le _, fun other hother _ => hother⟩
  | cons c rest ih =>
      rw [truncateAtCharBoundary]
      split
      case isTrue hsize =>
        obtain ⟨hstart, hlen, hlongest⟩ := ih (count - c.utf8Size)
        refine ⟨List.cons_prefix_cons.mpr ⟨rfl, hstart⟩, ?_, fun other hother hfits => ?_⟩
        · show len (c :: _) ≤ count
          rw [len_cons]
          omega
        · cases other with
          | nil => exact List.nil_prefix
          | cons first other =>
              obtain ⟨rfl, htail⟩ := List.cons_prefix_cons.mp hother
              rw [len_cons] at hfits
              exact List.cons_prefix_cons.mpr ⟨rfl, hlongest other htail (by omega)⟩
      case isFalse hsize =>
        refine ⟨List.nil_prefix, Nat.zero_le _, fun other hother hfits => ?_⟩
        cases other with
        | nil => exact List.nil_prefix
        | cons first other =>
            obtain ⟨rfl, -⟩ := List.cons_prefix_cons.mp hother
            rw [len_cons] at hfits
            omega

/-- A text that fits is kept. -/
theorem truncateAtCharBoundary_of_le {count : ℕ} (h : len text ≤ count) :
    truncateAtCharBoundary count text = text := by
  have hlongest := truncateAtCharBoundary_isLongestStart count text
  exact hlongest.start.eq_of_length_le
    (hlongest.longest text (List.prefix_refl text) h).length_le

/-- To step back to a boundary is to take the longest start that fits. -/
theorem slice_stepBack (text : List Char) (count : ℕ) :
    slice text 0 (stepBack text count) = some (truncateAtCharBoundary count text) := by
  obtain ⟨hstart, hfits, hlongest⟩ := truncateAtCharBoundary_isLongestStart count text
  obtain ⟨nothing, head, -, hhead, -⟩ := slice_append_slice (Nat.le_refl 0)
    (Nat.zero_le (stepBack text count)) isCharBoundary_zero isCharBoundary_zero
    isCharBoundary_stepBack
  have hlen := len_slice hhead
  have hle : stepBack text count ≤ count := stepBack_le
  obtain ⟨tail, htail⟩ := hlongest head (prefix_of_slice hhead) (by omega)
  obtain ⟨rest, hrest⟩ := hstart
  have hboundary : isCharBoundary text (len (truncateAtCharBoundary count text)) = true :=
    isCharBoundary_iff.mpr ⟨_, rest, hrest.symm, rfl⟩
  -- the longest start ends at a boundary too, so nothing is left of it behind the slice
  have hback := le_stepBack hboundary hfits
  have hnil : tail = [] := by
    rw [← htail, len_append] at hback
    exact eq_nil_of_len_eq_zero (by omega)
  rw [hhead, ← htail, hnil, List.append_nil]

/-! ## The nearest boundary -/

/-- `(0..=offset).rev().find(|&i| text.is_char_boundary(i)).unwrap_or(0)`. -/
def previousBoundary (text : List Char) (offset : ℕ) : ℕ :=
  ((List.range (offset + 1)).reverse.find? (isCharBoundary text)).getD 0

/-- `(offset..=text.len()).find(|&i| text.is_char_boundary(i)).unwrap_or(text.len())`. -/
def nextBoundary (text : List Char) (offset : ℕ) : ℕ :=
  ((List.range' offset (len text + 1 - offset)).find? (isCharBoundary text)).getD (len text)

/-- The previous boundary is the last one that is not beyond the offset. -/
theorem previousBoundary_isGreatest (text : List Char) (offset : ℕ) :
    IsGreatest {i | isCharBoundary text i = true ∧ i ≤ offset} (previousBoundary text offset) := by
  induction offset with
  | zero =>
      have hzero : previousBoundary text 0 = 0 := by simp [previousBoundary, List.range_one]
      rw [hzero]
      exact ⟨⟨isCharBoundary_zero, Nat.le_refl 0⟩, fun i hi => hi.2⟩
  | succ offset ih =>
      rw [previousBoundary, List.range_succ, List.reverse_append, List.reverse_singleton,
        List.singleton_append, List.find?_cons]
      cases hboundary : isCharBoundary text (offset + 1) with
      | true => exact ⟨⟨hboundary, Nat.le_refl _⟩, fun i hi => hi.2⟩
      | false =>
          show IsGreatest _ (previousBoundary text offset)
          refine ⟨⟨ih.1.1, Nat.le_succ_of_le ih.1.2⟩, fun i hi => ih.2 ⟨hi.1, ?_⟩⟩
          have hne : i ≠ offset + 1 := fun heq => by rw [← heq, hi.1] at hboundary; cases hboundary
          have hle := hi.2
          omega

/-- The next boundary is the first one that is not before the offset. -/
theorem nextBoundary_isLeast (h : offset ≤ len text) :
    IsLeast {i | isCharBoundary text i = true ∧ offset ≤ i} (nextBoundary text offset) := by
  rw [nextBoundary]
  cases hfind : (List.range' offset (len text + 1 - offset)).find? (isCharBoundary text) with
  | none =>
      rw [List.find?_eq_none] at hfind
      exact absurd isCharBoundary_len
        (hfind (len text) (List.mem_range'_1.mpr ⟨h, by omega⟩))
  | some found =>
      obtain ⟨hboundary, hmem, hbefore⟩ := List.find?_range'_eq_some.mp hfind
      refine ⟨⟨hboundary, (List.mem_range'_1.mp hmem).1⟩, fun i hi => ?_⟩
      by_contra hlt
      have hnot := hbefore i hi.2 (by simpa using hlt)
      rw [hi.1] at hnot
      cases hnot

/-- The nearest boundaries in a slice are those in the text. -/
theorem previousBoundary_slice (h : slice text start stop = some mid) (hle : offset ≤ len mid) :
    previousBoundary text (start + offset) = start + stepBack mid offset := by
  have hback : stepBack mid offset ≤ offset := stepBack_le
  have hstart : isCharBoundary text start = true := by
    rw [← Nat.add_zero start, ← isCharBoundary_slice h (Nat.zero_le _)]
    exact isCharBoundary_zero
  refine (previousBoundary_isGreatest text (start + offset)).unique ⟨⟨?_, by omega⟩, ?_⟩
  · rw [← isCharBoundary_slice h (by omega)]
    exact isCharBoundary_stepBack
  · intro i hi
    rcases Nat.lt_or_ge i start with hbefore | hbehind
    · omega
    · obtain ⟨later, rfl⟩ := Nat.exists_eq_add_of_le hbehind
      obtain ⟨hboundary, hfits⟩ := hi
      rw [← isCharBoundary_slice h (by omega)] at hboundary
      exact Nat.add_le_add_left (le_stepBack hboundary (by omega)) start

/-- The next boundary within a slice. -/
theorem nextBoundary_slice (h : slice text start stop = some mid) (hle : offset ≤ len mid) :
    nextBoundary text (start + offset) = start + nextBoundary mid offset := by
  obtain ⟨⟨hboundary, hoffset⟩, hleast⟩ := nextBoundary_isLeast hle
  have hnext := le_len_of_isCharBoundary hboundary
  have hstop := add_len_slice h
  have htext : start + offset ≤ len text := by
    obtain ⟨lead, rest, rfl, rfl, -⟩ := exists_append_of_slice h
    rw [len_append, len_append]
    omega
  refine (nextBoundary_isLeast htext).unique ⟨⟨?_, by omega⟩, ?_⟩
  · rwa [← isCharBoundary_slice h hnext]
  · intro i hi
    obtain ⟨hother, hbehind⟩ := hi
    obtain ⟨later, rfl⟩ := Nat.exists_eq_add_of_le (Nat.le_trans (Nat.le_add_right _ _) hbehind)
    rcases Nat.lt_or_ge (len mid) later with hfar | hnear
    · omega
    · rw [← isCharBoundary_slice h hnear] at hother
      exact Nat.add_le_add_left (hleast ⟨hother, by omega⟩) start

end Text
