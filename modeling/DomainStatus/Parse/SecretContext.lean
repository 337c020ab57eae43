import DomainStatus.Lib.ByteOffsets

/-!
# The context of a secret

`extract_context` of `src/parse/secrets.rs`: the text around a match, with the middle of the match
left out when it is too long for its column. Read `extract_context_spec` first. A result of `none`
stands for a panic of a slice.
-/

namespace DomainStatus.Secrets

open Text

/-- `CONTEXT_CHARS`, which counts bytes. -/
def contextChars : ℕ := 80

/-- The most bytes of a context. -/
def maxContextBytes : ℕ := 1024

/-- `ELLIPSIS`. -/
def ellipsis : List Char := "...[truncated]...".toList

/-- The part of a text, or nothing where it would cut a character. -/
def matchSafeSlice (body : List Char) (start stop : ℕ) : Option (List Char) :=
  if start ≤ stop ∧ stop ≤ len body ∧ isCharBoundary body start ∧ isCharBoundary body stop then
    slice body start stop
  else some []

/-- The start of a text that fits into a number of bytes. -/
def truncateAtCharBoundary (text : List Char) (maxBytes : ℕ) : Option (List Char) :=
  if len text ≤ maxBytes then some text else slice text 0 (stepBack text maxBytes)

/-- Where the window of a match starts. -/
def safeStart (body : List Char) (start : ℕ) : ℕ :=
  previousBoundary body (start - contextChars)

/-- Where the window of a match ends. -/
def safeEnd (body : List Char) (stop : ℕ) : ℕ :=
  nextBoundary body (min (stop + contextChars) (len body))

/-- The window of a match. When it is too long the middle of the match is left out. -/
def extractContext (body : List Char) (start stop : ℕ) : Option (List Char) := do
  let raw ← slice body (safeStart body start) (safeEnd body stop)
  if len raw ≤ maxContextBytes then return raw
  let lead ← matchSafeSlice body (safeStart body start) start
  let rest ← matchSafeSlice body stop (safeEnd body stop)
  let overhead := len lead + len rest + len ellipsis
  if maxContextBytes ≤ overhead then truncateAtCharBoundary raw maxContextBytes
  else
    let matchBudget := maxContextBytes - overhead
    let half := matchBudget / 2
    let matchText ← slice body start stop
    let head ← truncateAtCharBoundary matchText half
    let tailStart := max (len matchText - (matchBudget - len head)) (len head)
    let tail ← slice matchText (nextBoundary matchText tailStart) (len matchText)
    return lead ++ head ++ ellipsis ++ tail ++ rest

/-- The bytes that are left for a match that is cut. -/
def matchBudget (body : List Char) (start stop : ℕ) : ℕ :=
  maxContextBytes - ((start - safeStart body start) + (safeEnd body stop - stop) + len ellipsis)

/-- Where the head of a match that is cut ends. -/
def headStop (body : List Char) (start stop : ℕ) : ℕ :=
  previousBoundary body (start + matchBudget body start stop / 2)

/-- Where the tail of a match that is cut starts. -/
def tailStart (body : List Char) (start stop : ℕ) : ℕ :=
  nextBoundary body (stop - (matchBudget body start stop - (headStop body start stop - start)))

/-! ## Head and tail of a match -/

section Match

variable {text : List Char} {maxBytes offset : ℕ}

/-- Truncation never panics. -/
theorem truncateAtCharBoundary_spec (text : List Char) (maxBytes : ℕ) :
    ∃ head, truncateAtCharBoundary text maxBytes = some head ∧ head <+: text ∧
      len head ≤ maxBytes ∧ slice text 0 (stepBack text maxBytes) = some head := by
  have hlongest := truncateAtCharBoundary_isLongestStart maxBytes text
  refine ⟨_, ?_, hlongest.start, hlongest.holds, slice_stepBack text maxBytes⟩
  rw [truncateAtCharBoundary]
  split
  case isTrue hfits => rw [truncateAtCharBoundary_of_le hfits]
  case isFalse => exact slice_stepBack text maxBytes

/-- The tail of a match never panics. -/
theorem tail_spec (h : offset ≤ len text) :
    ∃ tail, slice text (nextBoundary text offset) (len text) = some tail ∧ tail <:+ text ∧
      len tail ≤ len text - offset := by
  obtain ⟨⟨hboundary, hoffset⟩, -⟩ := nextBoundary_isLeast h
  have hnext := le_len_of_isCharBoundary hboundary
  obtain ⟨nothing, tail, -, htail, -⟩ := slice_append_slice (Nat.le_refl _) hnext hboundary
    hboundary isCharBoundary_len
  have hlen := len_slice htail
  exact ⟨tail, htail, suffix_of_slice htail, by omega⟩

end Match

/-! ## The window -/

/-- The offsets of a window around a match: the last boundary that is 80 bytes before the match or
more, and the first one that is 80 bytes behind it or more. -/
structure IsWindow (body : List Char) (start stop first last : ℕ) : Prop where
  first : IsGreatest {i | isCharBoundary body i = true ∧ i ≤ start - contextChars} first
  last : IsLeast {i | isCharBoundary body i = true ∧ min (stop + contextChars) (len body) ≤ i} last

section Window

variable {body : List Char} {start stop first last : ℕ}

/-- The context is cut out of the window that is described. -/
theorem isWindow (body : List Char) (start stop : ℕ) :
    IsWindow body start stop (safeStart body start) (safeEnd body stop) :=
  ⟨previousBoundary_isGreatest body _, nextBoundary_isLeast (Nat.min_le_right _ _)⟩

/-- The text before a match in its window is short. -/
theorem IsWindow.lead (hwindow : IsWindow body start stop first last)
    (hstart : isCharBoundary body start = true) :
    first ≤ start ∧ start - first < contextChars + 4 := by
  have hlen := le_len_of_isCharBoundary hstart
  obtain ⟨before, hboundary, hle, hlt⟩ :=
    exists_isCharBoundary_le (by omega : start - contextChars ≤ len body)
  have hfirst := hwindow.first.1.2
  have hgreatest : before ≤ first := hwindow.first.2 ⟨hboundary, hle⟩
  omega

/-- The text behind a match in its window is short. -/
theorem IsWindow.rest (hwindow : IsWindow body start stop first last)
    (hstop : isCharBoundary body stop = true) :
    stop ≤ last ∧ last - stop < contextChars + 4 := by
  have hlen := le_len_of_isCharBoundary hstop
  obtain ⟨behind, hboundary, hle, hlt⟩ :=
    exists_isCharBoundary_ge (Nat.min_le_right (stop + contextChars) (len body))
  have hlast := hwindow.last.1.2
  have hleast : last ≤ behind := hwindow.last.2 ⟨hboundary, hle⟩
  omega

/-- The parts of the window around a match. -/
structure WindowParts (body : List Char) (start stop : ℕ) (window lead matchText rest : List Char) :
    Prop where
  window : slice body (safeStart body start) (safeEnd body stop) = some window
  lead : slice body (safeStart body start) start = some lead
  matchText : slice body start stop = some matchText
  rest : slice body stop (safeEnd body stop) = some rest

/-- The window has parts before, in and behind the match. -/
theorem exists_windowParts (hle : start ≤ stop) (hstart : isCharBoundary body start = true)
    (hstop : isCharBoundary body stop = true) :
    ∃ lead matchText rest,
      WindowParts body start stop (lead ++ (matchText ++ rest)) lead matchText rest := by
  have hwindow := isWindow body start stop
  have hfirst := (hwindow.lead hstart).1
  have hlast := (hwindow.rest hstop).1
  obtain ⟨matchText, rest, hmatch, hrest, hbehind⟩ :=
    slice_append_slice hle hlast hstart hstop hwindow.last.1.1
  obtain ⟨lead, behind, hlead, hsame, hwhole⟩ := slice_append_slice hfirst (hle.trans hlast)
    hwindow.first.1.1 hstart hwindow.last.1.1
  rw [hbehind, Option.some.injEq] at hsame
  subst hsame
  exact ⟨lead, matchText, rest, hwhole, hlead, hmatch, hrest⟩

/-- The text around a match leaves room for most of a column. -/
theorem WindowParts.overhead_lt {window lead matchText rest : List Char}
    (hparts : WindowParts body start stop window lead matchText rest)
    (hstart : isCharBoundary body start = true) (hstop : isCharBoundary body stop = true) :
    matchSafeSlice body (safeStart body start) start = some lead ∧
      matchSafeSlice body stop (safeEnd body stop) = some rest ∧
      len lead + len rest + len ellipsis < maxContextBytes := by
  have hwindow := isWindow body start stop
  obtain ⟨hfirst, hshortLead⟩ := hwindow.lead hstart
  obtain ⟨hlast, hshortRest⟩ := hwindow.rest hstop
  have hbeforeLen := le_len_of_isCharBoundary hstart
  have hlastLen := le_len_of_isCharBoundary hwindow.last.1.1
  refine ⟨?_, ?_, ?_⟩
  · rw [matchSafeSlice, if_pos ⟨hfirst, hbeforeLen, hwindow.first.1.1, hstart⟩, hparts.lead]
  · rw [matchSafeSlice, if_pos ⟨hlast, hlastLen, hstop, hwindow.last.1.1⟩, hparts.rest]
  · have hlead := len_slice hparts.lead
    have hrest := len_slice hparts.rest
    have hellipsis : len ellipsis = 17 := by decide
    have hmax : maxContextBytes = 1024 := rfl
    have hchars : contextChars = 80 := rfl
    omega

/-- A long match is cut in the middle. Its head and its tail never meet. -/
theorem WindowParts.extractContext_long {window lead matchText rest : List Char}
    (hparts : WindowParts body start stop window lead matchText rest)
    (hstart : isCharBoundary body start = true) (hstop : isCharBoundary body stop = true)
    (hwindow : window = lead ++ (matchText ++ rest)) (hlong : maxContextBytes < len window) :
    ∃ head tail, extractContext body start stop = some (lead ++ head ++ ellipsis ++ tail ++ rest) ∧
      head <+: matchText ∧ tail <:+ matchText ∧ len head + len tail < len matchText ∧
      len lead + len head + len ellipsis + len tail + len rest ≤ maxContextBytes ∧
      slice body start (headStop body start stop) = some head ∧
      slice body (tailStart body start stop) stop = some tail := by
  obtain ⟨hlead, hrest, hoverhead⟩ := hparts.overhead_lt hstart hstop
  have hleadLen := add_len_slice hparts.lead
  have hrestLen := add_len_slice hparts.rest
  have hstopLen := add_len_slice hparts.matchText
  have hbudget : maxContextBytes - (len lead + len rest + len ellipsis) =
      matchBudget body start stop := by
    rw [matchBudget]
    omega
  have hmatchLen : len window = len lead + (len matchText + len rest) := by
    rw [hwindow, len_append, len_append]
  obtain ⟨head, hhead, hprefixed, hheadLen, hheadSlice⟩ :=
    truncateAtCharBoundary_spec matchText (matchBudget body start stop / 2)
  have hellipsis : len ellipsis = 17 := by decide
  -- the match is longer than the budget, so the tail starts behind the head
  have hstartTail : max (len matchText - (matchBudget body start stop - len head)) (len head) ≤
      len matchText := by omega
  obtain ⟨tail, htail, hsuffix, htailLen⟩ := tail_spec hstartTail
  have hheadStop : headStop body start stop = start + len head := by
    have hback := len_slice hheadSlice
    rw [headStop, previousBoundary_slice hparts.matchText (by omega)]
    omega
  have htailStart : tailStart body start stop = start + nextBoundary matchText
      (max (len matchText - (matchBudget body start stop - len head)) (len head)) := by
    rw [tailStart, hheadStop, ← nextBoundary_slice hparts.matchText hstartTail]
    congr 1
    omega
  refine ⟨head, tail, ?_, hprefixed, hsuffix, by omega, by omega, ?_, ?_⟩
  · simp only [extractContext, hparts.window, Option.bind_eq_bind, Option.bind_some,
      if_neg (Nat.not_le.mpr hlong), hlead, hrest, if_neg (Nat.not_le.mpr hoverhead),
      hparts.matchText, hbudget, hhead, htail, pure]
  · have hback := len_slice hheadSlice
    rw [slice_slice hparts.matchText (by omega), Nat.add_zero] at hheadSlice
    rwa [hheadStop, hback, Nat.sub_zero]
  · rw [slice_slice hparts.matchText (Nat.le_refl _), hstopLen] at htail
    rwa [htailStart]

end Window

/-- The context of a match fits into its column. It is the whole window if that fits, and otherwise
the window with the middle of the match left out. The text around the match alone always fits. -/
structure ContextSpec (body : List Char) (start stop : ℕ)
    (context window lead matchText rest : List Char) : Prop where
  parts : WindowParts body start stop window lead matchText rest
  fits : len context ≤ maxContextBytes
  short : len window ≤ maxContextBytes → context = window
  long : maxContextBytes < len window → ∃ head tail,
    context = lead ++ head ++ ellipsis ++ tail ++ rest ∧ head <+: matchText ∧ tail <:+ matchText ∧
      len head + len tail < len matchText
  overhead : matchSafeSlice body (safeStart body start) start = some lead ∧
    matchSafeSlice body stop (safeEnd body stop) = some rest ∧
    len lead + len rest + len ellipsis < maxContextBytes

/-- The context of a match never panics, and is cut as it should be. -/
theorem extract_context_spec (body : List Char) {start stop : ℕ} (hle : start ≤ stop)
    (hstart : isCharBoundary body start = true) (hstop : isCharBoundary body stop = true) :
    IsWindow body start stop (safeStart body start) (safeEnd body stop) ∧
      ∃ context window lead matchText rest,
        extractContext body start stop = some context ∧
          ContextSpec body start stop context window lead matchText rest := by
  refine ⟨isWindow body start stop, ?_⟩
  obtain ⟨lead, matchText, rest, hparts⟩ := exists_windowParts hle hstart hstop
  have hoverhead := hparts.overhead_lt hstart hstop
  by_cases hlong : maxContextBytes < len (lead ++ (matchText ++ rest))
  · obtain ⟨head, tail, hcontext, hprefixed, hsuffix, hapart, hfits, -, -⟩ :=
      hparts.extractContext_long hstart hstop rfl hlong
    refine ⟨_, _, lead, matchText, rest, hcontext, hparts, ?_, fun hshort => ?_,
      fun _ => ⟨head, tail, rfl, hprefixed, hsuffix, hapart⟩, hoverhead⟩
    · simpa only [len_append] using hfits
    · exact absurd hlong (Nat.not_lt.mpr hshort)
  · have hshort := Nat.not_lt.mp hlong
    have hcontext : extractContext body start stop = some (lead ++ (matchText ++ rest)) := by
      simp only [extractContext, hparts.window, Option.bind_eq_bind, Option.bind_some,
        if_pos hshort, pure]
    exact ⟨_, _, lead, matchText, rest, hcontext, hparts, hshort, fun _ => rfl,
      fun hlonger => absurd hlonger hlong, hoverhead⟩

/-- The context by offsets: the whole window, or what stands before and behind the middle of the
match. -/
theorem extractContext_offsets (body : List Char) {start stop : ℕ} (hle : start ≤ stop)
    (hstart : isCharBoundary body start = true) (hstop : isCharBoundary body stop = true) :
    (safeEnd body stop - safeStart body start ≤ maxContextBytes →
      ∃ window, slice body (safeStart body start) (safeEnd body stop) = some window ∧
        extractContext body start stop = some window) ∧
    (maxContextBytes < safeEnd body stop - safeStart body start →
      ∃ front back, slice body (safeStart body start) (headStop body start stop) = some front ∧
        slice body (tailStart body start stop) (safeEnd body stop) = some back ∧
        headStop body start stop ≤ safeEnd body stop ∧
        safeStart body start ≤ tailStart body start stop ∧
        extractContext body start stop = some (front ++ ellipsis ++ back)) := by
  obtain ⟨lead, matchText, rest, hparts⟩ := exists_windowParts hle hstart hstop
  have hlen := len_slice hparts.window
  constructor
  · intro hshort
    refine ⟨_, hparts.window, ?_⟩
    simp only [extractContext, hparts.window, Option.bind_eq_bind, Option.bind_some, pure]
    exact if_pos (by omega)
  · intro hlong
    obtain ⟨head, tail, hcontext, -, -, hapart, -, hhead, htail⟩ :=
      hparts.extractContext_long hstart hstop rfl (by omega)
    have hleadLen := add_len_slice hparts.lead
    have hmatchLen := add_len_slice hparts.matchText
    have hrestLen := add_len_slice hparts.rest
    have hheadLen := add_len_slice hhead
    have htailLen := add_len_slice htail
    refine ⟨_, _, slice_join hparts.lead hhead, slice_join htail hparts.rest, by omega, by omega,
      ?_⟩
    rw [hcontext]
    simp only [List.append_assoc]

/-- A page whose window starts inside of a letter of two bytes. -/
def polishPage : List Char :=
  "ę".toList ++ List.replicate 79 'X' ++ "AKIA".toList

/-- The same page with a match that is longer than its column. -/
def longMatchPage : List Char :=
  polishPage ++ List.replicate 1500 'A'

/-- The short match is stored with its window, and the long one with its middle left out. -/
theorem extract_context_polish_page :
    (IsWindow polishPage 81 85 (safeStart polishPage 81) (safeEnd polishPage 85) ∧
      ∃ context window lead matchText rest, extractContext polishPage 81 85 = some context ∧
        ContextSpec polishPage 81 85 context window lead matchText rest) ∧
      ∃ context lead head tail rest, extractContext longMatchPage 81 1585 = some context ∧
        context = lead ++ head ++ ellipsis ++ tail ++ rest ∧ len context ≤ 1024 := by
  refine ⟨extract_context_spec polishPage (by decide) (by decide) (by decide), ?_⟩
  obtain ⟨-, context, window, lead, matchText, rest, hcontext, hspec⟩ :=
    @extract_context_spec longMatchPage 81 1585 (by decide) (by decide +kernel) (by decide +kernel)
  have hlong : maxContextBytes < len window := by
    have hlen := len_slice hspec.parts.window
    have hends : safeStart longMatchPage 81 = 0 ∧ safeEnd longMatchPage 1585 = 1585 := by
      decide +kernel
    rw [hlen, hends.1, hends.2]
    decide
  obtain ⟨head, tail, hparts, -⟩ := hspec.long hlong
  exact ⟨context, lead, head, tail, rest, hcontext, hparts, hspec.fits⟩

example : safeStart polishPage 81 = 0 := by decide

end DomainStatus.Secrets
