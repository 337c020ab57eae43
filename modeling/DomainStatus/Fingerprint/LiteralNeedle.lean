import DomainStatus.Fingerprint.MandatoryPrefix

/-!
# Needles of patterns that are texts

What `ascii_literal_needle` of `src/fingerprint/patterns/literals.rs` takes for the text of a
pattern, next to what `matches_pattern` finds. Read `isMatch_iff_occurs` first: a pattern of written
characters is found where these occur. `exists_differs_of_angle` is the other half: with an
assertion among them it is not.
-/

namespace DomainStatus.Fingerprint

open RegexSyntax Text

/-- A backslash makes an angle bracket an assertion. -/
def hasAngleEscape : List Char → Bool
  | '\\' :: c :: rest => c = '<' || c = '>' || hasAngleEscape rest
  | _ :: rest => hasAngleEscape rest
  | [] => false

variable {R : RegexCrate} {L : Lexicon} {chars pattern : List Char} {tokens : List Token}

/-! ## Written characters -/

/-- A pattern that is unescaped is a list of written characters. -/
theorem unescapeEscapedLiteral_spec (h : unescapeEscapedLiteral pattern = some chars)
    (hascii : isAscii pattern = true) :
    ∃ tokens, pattern = source tokens ∧ (∀ token ∈ tokens, token.IsWritten) ∧
      chars = tokens.map Token.char := by
  fun_induction unescapeEscapedLiteral pattern generalizing chars with
  | case1 => exact ⟨[], rfl, by simp, (Option.some.inj h).symm⟩
  | case2 => cases h
  | case3 => cases h
  | case4 escaped rest hgoes ih =>
      obtain ⟨chars, hchars, rfl⟩ := Option.map_eq_some_iff.mp h
      rw [isAscii, List.all_cons, List.all_cons, Bool.and_eq_true, Bool.and_eq_true] at hascii
      obtain ⟨tokens, rfl, hwritten, rfl⟩ := ih hchars hascii.2.2
      refine ⟨.escaped escaped :: tokens, rfl, List.forall_mem_cons.mpr ⟨?_, hwritten⟩, rfl⟩
      simpa [Token.IsWritten] using hgoes
  | case5 => cases h
  | case6 ch rest hbackslash hescape hgoes ih =>
      obtain ⟨chars, hchars, rfl⟩ := Option.map_eq_some_iff.mp h
      rw [isAscii, List.all_cons, Bool.and_eq_true, decide_eq_true_eq] at hascii
      obtain ⟨tokens, rfl, hwritten, rfl⟩ := ih hchars hascii.2
      refine ⟨.plain ch :: tokens, rfl, List.forall_mem_cons.mpr ⟨⟨hascii.1, Or.inl ?_⟩, hwritten⟩,
        rfl⟩
      have hne := ne_backslash hbackslash hescape
      simp only [List.contains_iff_mem, String.reduceToList, List.mem_cons, List.not_mem_nil,
        or_false, not_or] at hgoes
      simp [isSyntax, *]

/-- The assertions among written characters are seen in the pattern. -/
theorem hasAngleEscape_source (hwritten : ∀ token ∈ tokens, token.IsWritten) :
    hasAngleEscape (source tokens) = true ↔ ∃ token ∈ tokens, token.IsAngle := by
  induction tokens with
  | nil => exact iff_of_false Bool.false_ne_true (by simp)
  | cons token tokens ih =>
      rw [List.forall_mem_cons] at hwritten
      rw [List.exists_mem_cons_iff, ← ih hwritten.2]
      cases token with
      | escaped c =>
          show (c = '<' || c = '>' || hasAngleEscape (source tokens)) = true ↔ _
          rw [Bool.or_eq_true, Bool.or_eq_true, decide_eq_true_eq, decide_eq_true_eq]
          refine or_congr_left ?_
          simp [Token.IsAngle]
      | plain c =>
          have hne : c ≠ '\\' := by
            rintro rfl
            rcases hwritten.1.2 with hsyntax | hparen
            · cases hsyntax
            · cases hparen
          have hcons : hasAngleEscape (c :: source tokens) = hasAngleEscape (source tokens) := by
            rw [hasAngleEscape]
            intro d more heq
            exact absurd heq hne
          show hasAngleEscape (c :: source tokens) = true ↔ _
          rw [hcons]
          simp [Token.IsAngle]

/-- Without a backslash nothing is escaped. -/
theorem hasAngleEscape_of_not_mem (h : '\\' ∉ pattern) : hasAngleEscape pattern = false := by
  induction pattern with
  | nil => rfl
  | cons c rest ih =>
      rw [List.mem_cons, not_or] at h
      rw [hasAngleEscape]
      · exact ih h.2
      · intro d more heq
        exact absurd heq.symm h.1

/-! ## Parsed patterns -/

/-- The parts behind the pattern do not change it. -/
theorem patternForMatch_readPart (parsed : ParsedPattern) (part : List Char) :
    (parsed.readPart part).patternForMatch = parsed.patternForMatch := by
  rw [ParsedPattern.readPart]
  split
  · rfl
  · split_ifs
    · rfl
    · split <;> rfl
    · rfl

/-- No list of parts behind the pattern changes it. -/
theorem patternForMatch_foldl_readPart (parts : List (List Char)) (parsed : ParsedPattern) :
    (parts.foldl ParsedPattern.readPart parsed).patternForMatch = parsed.patternForMatch := by
  induction parts generalizing parsed with
  | nil => rfl
  | cons part parts ih => rw [List.foldl_cons, ih, patternForMatch_readPart]

/-- The first part stands at the start of the text, and the separator is not in it. -/
theorem splitAux_head {sep part text first : List Char} {parts : List (List Char)}
    (hsep : sep ≠ []) (h : splitAux sep 0 part text = first :: parts) :
    ∃ lead, first = part.reverse ++ lead ∧ lead <+: text ∧ ¬sep <:+: lead := by
  have hnil : ¬sep <:+: [] := fun hinfix => hsep (List.infix_nil.mp hinfix)
  induction text generalizing part with
  | nil =>
      obtain ⟨rfl, -⟩ := List.cons.inj h
      exact ⟨[], (List.append_nil _).symm, List.prefix_refl _, hnil⟩
  | cons c rest ih =>
      rw [splitAux] at h
      split at h
      case isTrue =>
        obtain ⟨rfl, -⟩ := List.cons.inj h
        exact ⟨[], (List.append_nil _).symm, List.nil_prefix, hnil⟩
      case isFalse hstart =>
        obtain ⟨lead, rfl, hlead, hnone⟩ := ih h
        refine ⟨c :: lead, by simp, List.cons_prefix_cons.mpr ⟨rfl, hlead⟩, fun hinfix => ?_⟩
        rcases List.infix_cons_iff.mp hinfix with hhead | htail
        · exact hstart (List.isPrefixOf_iff_prefix.mpr
            (hhead.trans (List.cons_prefix_cons.mpr ⟨rfl, hlead⟩)))
        · exact hnone htail

/-- A text without the separator is one part. -/
theorem split_of_not_infix {sep text : List Char} (h : ¬sep <:+: text) :
    split sep text = [text] := by
  have haux : ∀ part, splitAux sep 0 part text = [part.reverse ++ text] := by
    induction text with
    | nil => exact fun part => by rw [splitAux, List.append_nil]
    | cons c rest ih =>
        intro part
        rw [List.infix_cons_iff, not_or] at h
        rw [splitAux, if_neg (fun hstart => h.1 (List.isPrefixOf_iff_prefix.mp hstart)), ih h.2,
          List.reverse_cons, List.append_assoc, List.singleton_append]
  exact haux []

/-- The text of a parsed pattern is parsed to itself, without metadata. -/
theorem parsePattern_patternForMatch (raw : String) :
    parsePattern (parsePattern raw).patternForMatch =
      { patternForMatch := (parsePattern raw).patternForMatch
        versionTemplate := none
        confidence := 100 } := by
  have hparsed : ∃ text, (parsePattern raw).patternForMatch = String.ofList (trimChars text) ∧
      ¬['\\', ';'] <:+: trimChars text := by
    rw [parsePattern]
    cases hsplit : split ['\\', ';'] raw.toList with
    | nil => exact ⟨[], rfl, by decide⟩
    | cons first parts =>
        obtain ⟨lead, hfirst, -, hnone⟩ := splitAux_head (List.cons_ne_nil _ _) hsplit
        obtain rfl : first = lead := hfirst
        refine ⟨first, patternForMatch_foldl_readPart parts _, fun hinfix => hnone ?_⟩
        obtain ⟨before, behind, -, -, htrim⟩ := exists_eq_trimChars first
        exact hinfix.trans ⟨before, behind, htrim.symm⟩
  obtain ⟨text, hpattern, hnone⟩ := hparsed
  rw [hpattern, parsePattern, String.toList_ofList, split_of_not_infix hnone]
  dsimp only
  rw [List.foldl_nil, trimChars_trimChars]

/-! ## Occurrences -/

/-- A branch of written characters has a match where these occur. -/
theorem hasMatch_iff_occurs {branch : Node} {text : List Char}
    (hspans : ∀ before mid behind,
      Spans branch before mid behind ↔ Spells L .caseless tokens mid)
    (hwritten : ∀ token ∈ tokens, token.IsWritten) (htext : isAscii text = true) :
    HasMatch branch text ↔ AhoCorasick.Occurs text (tokens.map Token.char) := by
  have hascii : ∀ token ∈ tokens, token.char.toNat < 128 := fun token htoken =>
    (hwritten token htoken).toNat_lt
  constructor
  · intro h
    obtain ⟨before, mid, behind, rfl, hmid⟩ := h
    rw [hspans, spells_iff rfl hascii (isAscii_of_append htext)] at hmid
    rw [AhoCorasick.Occurs, ← hmid]
    exact List.IsInfix.map _ ⟨before, behind, rfl⟩
  · intro h
    obtain ⟨lowerBefore, lowerBehind, hlower⟩ := h
    obtain ⟨front, behind, rfl, hfront, -⟩ := List.map_eq_append_iff.mp hlower.symm
    obtain ⟨before, mid, rfl, -, hmid⟩ := List.map_eq_append_iff.mp hfront
    refine ⟨before, mid, behind, rfl, (hspans _ _ _).mpr ?_⟩
    exact (spells_iff rfl hascii (isAscii_of_append htext)).mpr hmid

/-- A pattern that is read as written characters is found where these occur. -/
theorem isMatch_iff_occurs (crate : Documented R L) {regex : R.Regex} {text : String}
    (hnew : R.new ("(?i)" ++ String.ofList (source tokens)) = some regex)
    (hwritten : ∀ token ∈ tokens, token.IsWritten) (hangle : ∀ token ∈ tokens, ¬token.IsAngle)
    (htext : isAscii text.toList = true) :
    R.isMatch regex text = true ↔ AhoCorasick.Occurs text.toList (tokens.map Token.char) := by
  obtain ⟨later, hbranches⟩ := crate.reads_caseless hnew
  rw [String.toList_ofList] at hbranches
  obtain ⟨branch, hbranch, hspans⟩ := hbranches.tokens hwritten hangle rfl
  rw [crate.isMatch_iff htext, hbranch, ← hasMatch_iff_occurs hspans hwritten htext]
  simp

/-! ## Needles -/

/-- The text that is compiled for a pattern with a needle is written characters, those of the
needle. -/
theorem exists_tokens_of_needle (crate : Documented R L) {pattern needle : String}
    (hneedle : asciiLiteralNeedle pattern = some needle) :
    ∃ tokens, regexSource R pattern = String.ofList (source tokens) ∧
      (∀ token ∈ tokens, token.IsWritten) ∧
      needle.toList = (tokens.map Token.char).map Char.toLower ∧
      (hasAngleEscape pattern.toList = true ↔ ∃ token ∈ tokens, token.IsAngle) := by
  rw [asciiLiteralNeedle] at hneedle
  split at hneedle
  case isTrue => cases hneedle
  case isFalse hascii =>
    rw [Bool.not_eq_true', Bool.not_eq_false] at hascii
    by_cases hregex : isRegexPattern pattern = true
    · rw [if_pos hregex] at hneedle
      obtain ⟨chars, hchars, rfl⟩ := Option.map_eq_some_iff.mp hneedle
      obtain ⟨tokens, hsource, hwritten, rfl⟩ := unescapeEscapedLiteral_spec hchars hascii
      refine ⟨tokens, ?_, hwritten, ?_, ?_⟩
      · rw [regexSource, if_pos hregex, ← hsource, String.ofList_toList]
      · rw [toAsciiLowercase, String.toList_ofList, String.toList_ofList]
      · rw [hsource, hasAngleEscape_source hwritten]
    · rw [if_neg hregex] at hneedle
      refine ⟨pattern.toList.map escapedToken, ?_, ?_, ?_, ?_⟩
      · rw [regexSource, if_neg hregex, crate.escape_eq]
      · intro token htoken
        obtain ⟨c, hc, rfl⟩ := List.mem_map.mp htoken
        exact isWritten_escapedToken (by simpa using List.all_eq_true.mp hascii c hc)
      · rw [← Option.some.inj hneedle, toAsciiLowercase, String.toList_ofList, List.map_map]
        simp [Function.comp_def, char_escapedToken]
      · have hplain : '\\' ∉ pattern.toList := by
          intro hmem
          refine hregex (Bool.or_eq_true_iff.mpr (Or.inr ?_))
          exact List.any_eq_true.mpr ⟨'\\', by decide, List.contains_iff_mem.mpr hmem⟩
        rw [hasAngleEscape_of_not_mem hplain]
        refine iff_of_false Bool.false_ne_true fun h => ?_
        obtain ⟨token, htoken, hangle⟩ := h
        obtain ⟨c, -, rfl⟩ := List.mem_map.mp htoken
        exact not_isAngle_escapedToken c hangle

/-- A pattern whose metadata says nothing matches as its compiled text does. -/
theorem matched_patternResult_iff {pattern text parsed : String} {regex : R.Regex}
    (hparsed : parsePattern pattern =
      { patternForMatch := parsed, versionTemplate := none, confidence := 100 })
    (hne : parsed ≠ "") (hnew : R.new ("(?i)" ++ regexSource R parsed) = some regex) :
    (patternResult R pattern text).matched = true ↔ R.isMatch regex text = true := by
  have hpattern : pattern ≠ "" := by
    rintro rfl
    exact hne (congrArg ParsedPattern.patternForMatch hparsed).symm
  have hconfidence : ¬100 < minPatternConfidence := by decide
  have hcompiled : compilePattern R pattern = some (.regex regex none) := by
    rw [compilePattern, if_neg hpattern, hparsed]
    dsimp only
    rw [if_neg hconfidence, if_neg hne]
    rw [regexSource] at hnew
    split at hnew
    case isTrue hregex =>
      rw [if_pos hregex, hnew]
      rfl
    case isFalse hregex =>
      rw [if_neg hregex, hnew]
      rfl
  rw [patternResult, hcompiled]
  rfl

/-- A pattern that the crate does not compile matches nothing. -/
theorem matched_patternResult_of_none {pattern text parsed : String}
    (hparsed : parsePattern pattern =
      { patternForMatch := parsed, versionTemplate := none, confidence := 100 })
    (hne : parsed ≠ "") (hnew : R.new ("(?i)" ++ regexSource R parsed) = none) :
    (patternResult R pattern text).matched = false := by
  have hpattern : pattern ≠ "" := by
    rintro rfl
    exact hne (congrArg ParsedPattern.patternForMatch hparsed).symm
  have hconfidence : ¬100 < minPatternConfidence := by decide
  have hcompiled : compilePattern R pattern = none := by
    rw [compilePattern, if_neg hpattern, hparsed]
    dsimp only
    rw [if_neg hconfidence, if_neg hne]
    rw [regexSource] at hnew
    split at hnew
    case isTrue hregex =>
      rw [if_pos hregex, hnew]
      rfl
    case isFalse hregex =>
      rw [if_neg hregex, hnew]
      rfl
  rw [patternResult, hcompiled]
  rfl

/-! ## Assertions -/

/-- A text with fewer of a character than the needle does not have it. -/
theorem not_occurs_of_count_lt {text needle : List Char} (c : Char)
    (h : (text.map Char.toLower).count c < (needle.map Char.toLower).count c) :
    ¬AhoCorasick.Occurs text needle := by
  intro hoccurs
  have hsublist := List.IsInfix.sublist hoccurs
  exact absurd (hsublist.count_le c) (Nat.not_le.mpr h)

/-- Less of what is filtered out is left. -/
theorem count_map_filter_lt {α β : Type} [DecidableEq β] {keep : α → Bool} (f : α → β)
    {items : List α} {item : α} (hitem : item ∈ items) (hkeep : keep item = false) :
    ((items.filter keep).map f).count (f item) < (items.map f).count (f item) := by
  have hdropped : 0 < (items.filter fun other => !keep other).countP
      ((· == f item) ∘ f) :=
    List.countP_pos_iff.mpr
      ⟨item, List.mem_filter.mpr ⟨hitem, by rw [hkeep]; rfl⟩, beq_self_eq_true _⟩
  rw [List.count_eq_countP, List.count_eq_countP, List.countP_map, List.countP_map,
    List.countP_eq_countP_filter_add items _ keep]
  exact Nat.lt_add_of_pos_right hdropped

/-- A letter stands for a word at the end of a text. -/
def wordEnd (isWord : Bool) : List Char :=
  if isWord then ['a'] else []

/-- A pattern of written characters is ASCII. -/
theorem isAscii_chars (hwritten : ∀ token ∈ tokens, token.IsWritten) :
    isAscii (tokens.map Token.char) = true := by
  rw [isAscii, List.all_eq_true]
  intro c hc
  obtain ⟨token, htoken, rfl⟩ := List.mem_map.mp hc
  exact decide_eq_true (hwritten token htoken).toNat_lt

/-- Where assertions are taken for characters, some text tells the pattern from its needle: a match
has none of these characters. -/
theorem exists_differs_of_angle {needle : List Char} (hwritten : ∀ token ∈ tokens, token.IsWritten)
    (hneedle : needle = (tokens.map Token.char).map Char.toLower)
    (hangle : ∃ token ∈ tokens, token.IsAngle) :
    ∃ text, isAscii text = true ∧
      ¬(HasMatch (written L .caseless tokens .empty) text ↔ AhoCorasick.Occurs text needle) := by
  by_cases hmatch : ∃ text, isAscii text = true ∧ HasMatch (written L .caseless tokens .empty) text
  · obtain ⟨text, htext, before, mid, behind, rfl, hspans⟩ := hmatch
    have hmid := isAscii_of_append htext
    let front := wordEnd (before.getLast?.any isWordChar)
    let back := wordEnd (behind.head?.any isWordChar)
    have hshort : HasMatch (written L .caseless tokens .empty) (front ++ mid ++ back) := by
      refine ⟨front, mid, back, rfl, spans_written_congr ?_ ?_ hspans⟩
      · show _ = (wordEnd (before.getLast?.any isWordChar)).getLast?.any isWordChar
        cases before.getLast?.any isWordChar <;> rfl
      · show _ = (wordEnd (behind.head?.any isWordChar)).head?.any isWordChar
        cases behind.head?.any isWordChar <;> rfl
    have hends : ∀ isWord, isAscii (wordEnd isWord) = true := by
      intro isWord
      cases isWord <;> rfl
    refine ⟨front ++ mid ++ back, ?_, fun hiff => ?_⟩
    · rw [isAscii, List.all_append, List.all_append, Bool.and_eq_true, Bool.and_eq_true]
      exact ⟨⟨hends _, hmid⟩, hends _⟩
    · obtain ⟨token, htoken, hassertion⟩ := hangle
      -- The character of the assertion is in the needle once more than in the match.
      have hlower := (spells_iff rfl (fun token htoken =>
        (hwritten token (List.mem_of_mem_filter htoken)).toNat_lt) hmid).mp
          (spells_of_spans_written hspans)
      have hword : ∀ isWord, ((wordEnd isWord).map Char.toLower).count token.char.toLower = 0 := by
        intro isWord
        rcases hassertion with rfl | rfl <;> cases isWord <;> decide
      have hcount : ((tokens.filter fun other => ¬other.IsAngle).map fun other =>
          other.char.toLower).count token.char.toLower <
            (tokens.map fun other => other.char.toLower).count token.char.toLower :=
        count_map_filter_lt (fun other : Token => other.char.toLower) htoken
          (by simpa using hassertion)
      have hoccurs := hiff.mp hshort
      rw [hneedle, occurs_map_toLower] at hoccurs
      refine not_occurs_of_count_lt token.char.toLower ?_ hoccurs
      rw [List.map_append, List.map_append, List.count_append, List.count_append, hword, hword,
        hlower, Nat.zero_add, Nat.add_zero, List.map_map, List.map_map]
      exact hcount
  · -- Nothing matches, and the characters themselves have the needle.
    have hascii := isAscii_chars hwritten
    refine ⟨tokens.map Token.char, hascii, fun hiff => hmatch ⟨_, hascii, hiff.mpr ?_⟩⟩
    rw [hneedle, occurs_map_toLower]
    exact List.infix_refl _

/-- The property of a needle: it occurs in the ASCII texts that the pattern matches. The pattern is
one that comes from parsing, as all patterns that are asked for a needle. That is so exactly when
no angle bracket is escaped and the pattern is empty or compiled by the crate. -/
theorem ascii_literal_needle_exact_iff (crate : Documented R L) {moka : Moka R}
    {cache : RegexCache R} (hcache : CacheCoherent cache) {raw needle : String}
    (hneedle : asciiLiteralNeedle (parsePattern raw).patternForMatch = some needle) :
    let pattern := (parsePattern raw).patternForMatch
    (∀ text : String, isAscii text.toList = true →
        ((matchesPattern moka cache pattern text).1.matched = true ↔
          AhoCorasick.Occurs text.toList needle.toList)) ↔
      hasAngleEscape pattern.toList = false ∧
        (pattern = "" ∨ (R.new ("(?i)" ++ regexSource R pattern)).isSome) := by
  intro pattern
  obtain ⟨tokens, hsource, hwritten, hchars, hangle⟩ := exists_tokens_of_needle crate hneedle
  have hparsed : parsePattern pattern =
      { patternForMatch := pattern, versionTemplate := none, confidence := 100 } :=
    parsePattern_patternForMatch raw
  have hresult : ∀ text : String, (matchesPattern moka cache pattern text).1.matched =
      (patternResult R pattern text).matched := by
    intro text
    rw [(matchesPattern_eq hcache pattern text).1]
  simp only [hresult]
  by_cases hempty : pattern = ""
  · have hneedleEmpty : needle = "" := by
      rw [show (parsePattern raw).patternForMatch = "" from hempty] at hneedle
      exact (Option.some.inj hneedle).symm
    rw [hempty, hneedleEmpty]
    exact iff_of_true (fun text _ => iff_of_true rfl List.nil_infix) ⟨rfl, Or.inl rfl⟩
  cases hnew : R.new ("(?i)" ++ regexSource R pattern) with
  | none =>
      -- The needle occurs in its own text, which the pattern does not match.
      refine iff_of_false (fun hexact => ?_) fun h => ?_
      · have hoccurs := (hexact (String.ofList (tokens.map Token.char)) ?_).mpr ?_
        · rw [matched_patternResult_of_none hparsed hempty hnew] at hoccurs
          cases hoccurs
        · rw [String.toList_ofList]
          exact isAscii_chars hwritten
        · rw [String.toList_ofList, hchars, occurs_map_toLower]
          exact List.infix_refl _
      · rcases h.2 with h | h
        · exact hempty h
        · cases h
  | some regex =>
      have hmatched : ∀ text, (patternResult R pattern text).matched = true ↔
          R.isMatch regex text = true := fun text => matched_patternResult_iff hparsed hempty hnew
      obtain ⟨later, hbranches⟩ := crate.reads_caseless hnew
      rw [hsource, String.toList_ofList] at hbranches
      have hwhole := hbranches.eq_written hwritten rfl
      simp only [hmatched]
      cases hescape : hasAngleEscape pattern.toList with
      | false =>
          have hplain : ∀ token ∈ tokens, ¬token.IsAngle := by
            intro token htoken hassertion
            rw [hangle.mpr ⟨token, htoken, hassertion⟩] at hescape
            cases hescape
          refine iff_of_true (fun text htext => ?_) ⟨rfl, Or.inr rfl⟩
          rw [hsource] at hnew
          rw [hchars, occurs_map_toLower]
          exact isMatch_iff_occurs crate hnew hwritten hplain htext
      | true =>
          refine iff_of_false (fun hexact => ?_) fun h => by cases h.1
          obtain ⟨text, htext, hdiffers⟩ : ∃ text, isAscii text = true ∧
              ¬(HasMatch (written L .caseless tokens .empty) text ↔
                AhoCorasick.Occurs text needle.toList) :=
            exists_differs_of_angle hwritten hchars (hangle.mp hescape)
          have htext' : isAscii (String.ofList text).toList = true := by
            rwa [String.toList_ofList]
          refine hdiffers ?_
          have hiff := hexact (String.ofList text) htext'
          rw [crate.isMatch_iff htext', hwhole, String.toList_ofList] at hiff
          rw [← hiff]
          simp

/-- A cache that drops nothing. -/
def keepAll (R : RegexCrate) : Moka R where
  evict cache := cache
  lookup_evict h := h

/-- A crate that compiles one pattern of written characters. -/
noncomputable def tokensCrate (pattern : String) (tokens : List Token) : RegexCrate :=
  crateOf ("(?i)" ++ pattern) [written .plain .caseless tokens .empty]

/-- A pattern with an escaped point. -/
theorem ascii_literal_needle_exact_iff_point :
    hasAngleEscape "o\\.b".toList = false ∧ ∀ text : String, isAscii text.toList = true →
      ((matchesPattern (keepAll (tokensCrate "o\\.b" [.plain 'o', .escaped '.', .plain 'b'])) ∅
          "o\\.b" text).1.matched = true ↔
        AhoCorasick.Occurs text.toList "o.b".toList) := by
  have hreads : Reads .plain ("(?i)" ++ "o\\.b").toList
      [written .plain .caseless [.plain 'o', .escaped '.', .plain 'b'] .empty] :=
    reads_written rfl (by decide)
  have hparsed : (parsePattern "o\\.b").patternForMatch = "o\\.b" := by decide +kernel
  have hexact := @ascii_literal_needle_exact_iff _ _ (documented_crateOf hreads) (keepAll _) ∅
    cacheCoherent_empty "o\\.b" "o.b" (by rw [hparsed]; decide)
  rw [hparsed] at hexact
  refine ⟨by decide, hexact.mpr ⟨by decide, Or.inr ?_⟩⟩
  exact Option.isSome_iff_exists.mpr ⟨(), crateOf_new _ _⟩

/-- A pattern of written characters is found in the text that it spells. -/
theorem matched_tokensCrate {pattern raw : String} {tokens : List Token} {text : String}
    (hraw : parsePattern raw =
      { patternForMatch := pattern, versionTemplate := none, confidence := 100 })
    (hne : pattern ≠ "") (hsource : regexSource (tokensCrate pattern tokens) pattern = pattern)
    (hmatch : HasMatch (written .plain .caseless tokens .empty) text.toList) :
    (matchesPattern (keepAll (tokensCrate pattern tokens)) ∅ raw text).1.matched = true := by
  rw [(matchesPattern_eq cacheCoherent_empty raw text).1]
  have hnew : (tokensCrate pattern tokens).new
      ("(?i)" ++ regexSource (tokensCrate pattern tokens) pattern) = some () := by
    rw [hsource]
    exact crateOf_new _ _
  rw [matched_patternResult_iff hraw hne hnew]
  exact crateOf_isMatch.mpr ⟨_, List.mem_cons_self, hmatch⟩

/-- An escaped angle bracket is an assertion, and the needle has it as a character. -/
theorem ascii_literal_needle_differs :
    Nonempty (Documented (tokensCrate "\\<a" [.escaped '<', .plain 'a']) .plain) ∧
      (parsePattern "\\<a").patternForMatch = "\\<a" ∧
      asciiLiteralNeedle "\\<a" = some "<a" ∧ isAscii "a".toList = true ∧
      (matchesPattern (keepAll (tokensCrate "\\<a" [.escaped '<', .plain 'a'])) ∅ "\\<a"
        "a").1.matched = true ∧
      ¬AhoCorasick.Occurs "a".toList "<a".toList := by
  have hangle : HasMatch (written .plain .caseless [.escaped '<', .plain 'a'] .empty) "a".toList :=
    ⟨[], ['a'], [], rfl, [], ['a'], rfl, ⟨rfl, by decide⟩, ['a'], [], rfl, ⟨'a', rfl, rfl⟩, rfl⟩
  refine ⟨⟨documented_crateOf (reads_written rfl (by decide))⟩, by decide +kernel, by decide,
    by decide, ?_, by decide⟩
  exact matched_tokensCrate (by decide +kernel) (by decide) rfl hangle

end DomainStatus.Fingerprint
