import DomainStatus.Fingerprint.Literals
import DomainStatus.Lib.Lowercase
import DomainStatus.Lib.RegexSyntax

/-!
# Prefixes of regular expressions

What `mandatory_prefix` of `src/fingerprint/patterns/literals.rs` takes from a pattern, next to the
grammar of patterns. The function scans written characters up to a place where it stops. Read
`Misread` first, and then `mandatory_prefix_sound_iff`: the characters are in every match, unless a
branch behind the first one matches without them, or the scan has misread the first one.
-/

namespace DomainStatus.Fingerprint

open RegexSyntax Text

/-- The scan stops here. -/
def stopsHere : List Char → Bool
  | [] => true
  | '\\' :: c :: _ => c.toNat ≥ 128 || c.isAlphanum
  | c :: _ => isSyntax c && c != ')' || c.toNat ≥ 128

/-- The operator at the stop makes the last character optional, as far as the scan sees. -/
def dropsLast : List Char → Bool
  | [] => false
  | ch :: rest => ch = '*' || ch = '?' || (ch = '\x7b' && rest.head? = some '0')

/-- The characters that the scan reads, and the place where it stops. -/
structure Scanned (pattern : List Char) (tokens : List Token) (rest : List Char) : Prop where
  pattern_eq : pattern = source tokens ++ rest
  written : ∀ token ∈ tokens, token.IsWritten
  stops : stopsHere rest = true

/-- The characters of the prefix. -/
def kept (tokens : List Token) (rest : List Char) : List Token :=
  if dropsLast rest then tokens.dropLast else tokens

variable {R : RegexCrate} {L : Lexicon} {out pattern found rest : List Char} {tokens : List Token}

/-! ## The scan -/

/-- What the scan finds behind the characters that it has. -/
def Finds (out pattern found : List Char) : Prop :=
  ∃ tokens rest, Scanned pattern tokens rest ∧
    found = if dropsLast rest then ((tokens.map Token.char).reverse ++ out).tail
      else (tokens.map Token.char).reverse ++ out

/-- The scan stops here with what it has read. -/
theorem finds_stop (hstops : stopsHere pattern = true)
    (hfound : found = if dropsLast pattern then out.tail else out) : Finds out pattern found :=
  ⟨[], pattern, ⟨rfl, by simp, hstops⟩, hfound⟩

/-- The scan goes on behind a character. -/
theorem finds_cons (token : Token) (htoken : token.IsWritten)
    (h : Finds (token.char :: out) pattern found) : Finds out (token.source ++ pattern) found := by
  obtain ⟨tokens, rest, ⟨rfl, hwritten, hstops⟩, hfound⟩ := h
  refine ⟨token :: tokens, rest, ⟨?_, ?_, hstops⟩, ?_⟩
  · rw [source, source, List.flatMap_cons, List.append_assoc]
  · exact List.forall_mem_cons.mpr ⟨htoken, hwritten⟩
  · rwa [List.map_cons, List.reverse_cons, List.append_assoc, List.singleton_append]

/-- Where the scan stops: at syntax, but not at `)`, and outside ASCII. -/
theorem stopsHere_cons {ch : Char} (h : ch ≠ '\\') :
    stopsHere (ch :: rest) = (isSyntax ch && ch != ')' || decide (ch.toNat ≥ 128)) := by
  unfold stopsHere
  split
  next heq => cases heq
  next heq => exact absurd (List.cons.inj heq).1 h
  next heq => rw [(List.cons.inj heq).1]

/-- The scan stops at an operator of repetition. -/
theorem stopsHere_cons_of_operator {ch : Char} (h : ['*', '?', '+', '\x7b'].contains ch = true) :
    stopsHere (ch :: rest) = true := by
  rw [List.contains_iff_mem] at h
  simp only [List.mem_cons, List.not_mem_nil, or_false] at h
  rcases h with rfl | rfl | rfl | rfl <;> rfl

/-- The last character is kept if no operator follows it. -/
theorem dropsLast_cons_of_not_operator {ch : Char}
    (h : ¬['*', '?', '+', '\x7b'].contains ch = true) : dropsLast (ch :: rest) = false := by
  rw [List.contains_iff_mem] at h
  simp only [List.mem_cons, List.not_mem_nil, or_false, not_or] at h
  simp [dropsLast, h]

/-- A character that neither ends the pattern nor escapes another one. -/
theorem ne_backslash {ch : Char} (hend : ch = '\\' → rest = [] → False)
    (hescape : ∀ escaped more, ch = '\\' → rest = escaped :: more → False) : ch ≠ '\\' := by
  intro heq
  cases rest with
  | nil => exact hend heq rfl
  | cons escaped more => exact hescape escaped more heq rfl

/-- The scan reads written characters and stops. -/
theorem mandatoryPrefixAux_spec (h : mandatoryPrefixAux out pattern = some found) :
    Finds out pattern found := by
  fun_induction mandatoryPrefixAux out pattern with
  | case1 out => exact finds_stop rfl (Option.some.inj h).symm
  | case2 => cases h
  | case3 out escaped rest hstop => exact finds_stop hstop (Option.some.inj h).symm
  | case4 out escaped rest hgoes ih =>
      refine finds_cons (.escaped escaped) ?_ (ih h)
      simpa [Token.IsWritten] using hgoes
  | case5 => cases h
  | case6 out ch rest hbackslash hescape hbar hatom =>
      rw [List.contains_iff_mem] at hatom
      simp only [List.mem_cons, List.not_mem_nil, or_false] at hatom
      rcases hatom with rfl | rfl | rfl | rfl | rfl <;>
        exact finds_stop rfl (Option.some.inj h).symm
  | case7 out ch rest hbackslash hescape hbar hatom hoperator optional hoptional =>
      have hdrops : dropsLast (ch :: rest) = true := hoptional
      refine finds_stop (stopsHere_cons_of_operator hoperator) ?_
      rw [hdrops, if_pos rfl, Option.some.inj h]
  | case8 out ch rest hbackslash hescape hbar hatom hoperator optional hoptional =>
      have hdrops : dropsLast (ch :: rest) = false := Bool.eq_false_iff.mpr hoptional
      refine finds_stop (stopsHere_cons_of_operator hoperator) ?_
      rw [hdrops, if_neg Bool.false_ne_true, Option.some.inj h]
  | case9 out ch rest hbackslash hescape hbar hatom hoperator hascii =>
      have hne : ch ≠ '\\' := by
        rintro rfl
        exact absurd hascii (by decide)
      refine finds_stop ?_ ?_
      · rw [stopsHere_cons hne, decide_eq_true hascii, Bool.or_true]
      · rw [dropsLast_cons_of_not_operator hoperator, if_neg Bool.false_ne_true, Option.some.inj h]
  | case10 out ch rest hbackslash hescape hbar hatom hoperator hascii ih =>
      have hne := ne_backslash hbackslash hescape
      refine finds_cons (.plain ch) ⟨Nat.lt_of_not_ge hascii, ?_⟩ (ih h)
      by_cases hparen : ch = ')'
      · exact Or.inr hparen
      · refine Or.inl ?_
        simp only [List.contains_iff_mem, List.mem_cons, List.not_mem_nil, or_false, not_or]
          at hatom hoperator
        simp [isSyntax, *]

/-- What was scanned when a prefix is found. -/
theorem mandatoryPrefix_spec {pattern lead : String} (h : mandatoryPrefix pattern = some lead) :
    ∃ tokens rest, Scanned pattern.toList tokens rest ∧
      lead.toList = ((kept tokens rest).map Token.char).map Char.toLower := by
  rw [mandatoryPrefix, Option.bind_eq_some_iff] at h
  obtain ⟨found, hfound, hlead⟩ := h
  obtain ⟨tokens, rest, hscanned, hkept⟩ := mandatoryPrefixAux_spec hfound
  refine ⟨tokens, rest, hscanned, ?_⟩
  split at hlead
  · rw [← Option.some.inj hlead, toAsciiLowercase, String.toList_ofList, String.toList_ofList,
      hkept, kept]
    split
    · simp
    · simp
  · cases hlead

/-! ## Branches -/

/-- Every ASCII text with a match of the branch has the characters, up to case. -/
def AlwaysContains (branch : Node) (lead : List Char) : Prop :=
  ∀ text, isAscii text = true → HasMatch branch text → AhoCorasick.Occurs text lead

/-- The scan takes a part of the first branch for something else: an assertion for a character, or
operators that leave the last character out for ones that do not. -/
def Misread (L : Lexicon) (pattern : List Char) : Prop :=
  ∃ tokens rest, Scanned pattern tokens rest ∧
    ((∃ token ∈ kept tokens rest, token.IsAngle) ∨
      dropsLast rest = false ∧ ¬IsRequired L .caseless rest)

variable {node : Node} {later : Flags} {last : List Char}

/-- Where no operator starts nothing is left out. -/
theorem isRequired_of_not_startsOperator (h : startsOperator rest = false) :
    IsRequired L .caseless rest := by
  intro operators last hoperators times htimes
  rw [(hoperators.eq_nil rfl h).1] at htimes
  exact absurd htimes List.not_mem_nil

/-- Behind the characters of the prefix no operator leaves the last one of them out. -/
theorem Scanned.exists_kept (h : Scanned pattern tokens rest) (hread : ¬Misread L pattern) :
    ∃ input, pattern = source (kept tokens rest) ++ input ∧
      (∀ token ∈ kept tokens rest, token.IsWritten) ∧
      (kept tokens rest = [] ∨ IsRequired L .caseless input) := by
  cases hdrops : dropsLast rest with
  | false =>
      have hrequired : IsRequired L .caseless rest := by
        by_contra hnot
        exact hread ⟨tokens, rest, h, Or.inr ⟨hdrops, hnot⟩⟩
      rw [kept, hdrops, if_neg Bool.false_ne_true]
      exact ⟨rest, h.pattern_eq, h.written, Or.inr hrequired⟩
  | true =>
      obtain ⟨heq, hwritten, -⟩ := h
      rw [kept, hdrops, if_pos rfl]
      rcases List.eq_nil_or_concat tokens with rfl | ⟨init, token, rfl⟩
      · exact ⟨rest, heq, hwritten, Or.inl rfl⟩
      · -- the last character that was scanned is dropped, and stands in front of the operator
        rw [List.concat_eq_append] at *
        rw [List.forall_mem_append, List.forall_mem_singleton] at hwritten
        rw [List.dropLast_concat]
        refine ⟨token.source ++ rest, ?_, hwritten.1, Or.inr ?_⟩
        · rw [heq, source, List.flatMap_append, List.flatMap_singleton, List.append_assoc]
          rfl
        · exact isRequired_of_not_startsOperator (startsOperator_source hwritten.2)

/-- A needle in lower case occurs where the needle does. -/
theorem occurs_map_toLower {text needle : List Char} :
    AhoCorasick.Occurs text (needle.map Char.toLower) ↔ AhoCorasick.Occurs text needle := by
  have htwice : (needle.map Char.toLower).map Char.toLower = needle.map Char.toLower := by
    rw [List.map_map]
    exact List.map_congr_left fun c _ => toLower_toLower c
  rw [AhoCorasick.Occurs, htwice]
  rfl

/-- A part of an ASCII text. -/
theorem isAscii_of_append {before mid behind : List Char}
    (h : isAscii (before ++ mid ++ behind) = true) : isAscii mid = true := by
  rw [isAscii, List.all_append, List.all_append, Bool.and_eq_true, Bool.and_eq_true] at h
  exact h.1.2

/-- A branch that is read as the scan reads it has the characters of the prefix. -/
theorem alwaysContains_of_not_misread (hscanned : Scanned pattern tokens rest)
    (hread : ¬Misread L pattern) (h : Sequence L .caseless pattern node later last)
    (hlast : last.head? ≠ some ')') :
    AlwaysContains node (((kept tokens rest).map Token.char).map Char.toLower) := by
  obtain ⟨input, heq, hwritten, hinput⟩ := hscanned.exists_kept hread
  have hangle : ∀ token ∈ kept tokens rest, ¬token.IsAngle := fun token htoken hangle =>
    hread ⟨tokens, rest, hscanned, Or.inl ⟨token, htoken, hangle⟩⟩
  intro text htext hmatch
  obtain ⟨before, mid, behind, rfl, hspans⟩ := hmatch
  rcases hinput with hnil | hrequired
  · rw [hnil]
    exact List.nil_infix
  · rw [heq] at h
    obtain ⟨lead, ⟨tail, rfl⟩, hlead⟩ :=
      h.exists_spells hwritten hangle rfl hlast hrequired hspans
    have hascii : isAscii lead = true :=
      isAscii_of_append (List.nil_append lead ▸ isAscii_of_append htext)
    have hlower := (spells_iff rfl (fun token htoken => (hwritten token htoken).toNat_lt)
      hascii).mp hlead
    rw [occurs_map_toLower, AhoCorasick.Occurs, ← hlower]
    exact List.IsInfix.map _ ⟨before, tail ++ behind, by simp only [List.append_assoc]⟩

/-- A pattern's prefix is in every match exactly when the branches that the scan does not see, or
takes for something else, have no match without it. -/
theorem mandatory_prefix_sound_iff (crate : Documented R L) {pattern lead : String}
    {regex : R.Regex} (hnew : R.new ("(?i)" ++ pattern) = some regex)
    (hlead : mandatoryPrefix pattern = some lead) :
    (∀ text : String, isAscii text.toList = true → R.isMatch regex text = true →
        AhoCorasick.Occurs text.toList lead.toList) ↔
      (∀ branch ∈ (crate.branches regex).tail, AlwaysContains branch lead.toList) ∧
        (Misread L pattern.toList →
          ∀ branch ∈ (crate.branches regex).head?, AlwaysContains branch lead.toList) := by
  obtain ⟨later, hbranches⟩ := crate.reads_caseless hnew
  obtain ⟨first, others, between, rest, heq, hsequence, hrest⟩ := hbranches.exists_head
  obtain ⟨tokens, stop, hscanned, hkept⟩ := mandatoryPrefix_spec hlead
  rw [heq, List.tail_cons, List.head?_cons]
  constructor
  · intro hsound
    have hbranch : ∀ branch ∈ first :: others, AlwaysContains branch lead.toList := by
      intro branch hbranch text htext hmatch
      have hstring := hsound (String.ofList text)
      rw [String.toList_ofList] at hstring
      refine hstring htext ((crate.isMatch_iff (by rwa [String.toList_ofList])).mpr ?_)
      rw [heq, String.toList_ofList]
      exact ⟨branch, hbranch, hmatch⟩
    rw [List.forall_mem_cons] at hbranch
    refine ⟨hbranch.2, fun _ branch hfirst => ?_⟩
    rw [← Option.some.inj hfirst]
    exact hbranch.1
  · intro h text htext hmatch
    obtain ⟨hothers, hmisread⟩ := h
    obtain ⟨branch, hmem, hbranch⟩ := (crate.isMatch_iff htext).mp hmatch
    rw [heq] at hmem
    rcases List.mem_cons.mp hmem with rfl | hmem
    · by_cases hread : Misread L pattern.toList
      · exact hmisread hread branch rfl text.toList htext hbranch
      · rw [hkept]
        exact alwaysContains_of_not_misread hscanned hread hsequence hrest _ htext hbranch
    · exact hothers branch hmem text.toList htext hbranch

/-! ## A branch that the scan does not see -/

/-- The branches of `(?i)vuex.+|pinia`. -/
def vuexOrPinia : List Node :=
  [written .plain .caseless (plainTokens "vuex")
      (.seq (.rep (.set fun d => d != '\n') ⟨1, none⟩) .empty),
    written .plain .caseless (plainTokens "pinia") .empty]

/-- How the crate reads the pattern with an alternative. -/
theorem reads_vuexOrPinia : Reads .plain ("(?i)" ++ "vuex.+|pinia").toList vuexOrPinia := by
  have hbar : Sequence .plain .caseless "|pinia".toList .empty .caseless "|pinia".toList :=
    .done _ _ (Or.inr (Or.inl rfl))
  have hpoint : Sequence .plain .caseless ".+|pinia".toList
      (.seq (.rep (.set fun d => d != '\n') ⟨1, none⟩) .empty) .caseless "|pinia".toList :=
    .part _ _ _ "+|pinia".toList [⟨1, none⟩] _ _ _ _ (.special _ _ _ _ rfl rfl)
      (.cons _ _ _ _ _ rfl (.plus "|pinia".toList) (.nil _)) hbar
  have hfirst : Sequence .plain .caseless (source (plainTokens "vuex") ++ ".+|pinia".toList)
      (written .plain .caseless (plainTokens "vuex")
        (.seq (.rep (.set fun d => d != '\n') ⟨1, none⟩) .empty)) .caseless "|pinia".toList :=
    hpoint.written (by decide) rfl
  have hsecond : Sequence .plain .caseless (source (plainTokens "pinia") ++ [])
      (written .plain .caseless (plainTokens "pinia") .empty) .caseless [] :=
    .written (.done _ _ (Or.inl rfl)) (by decide) rfl
  rw [String.toList_append]
  refine ⟨.caseless, .cons _ _ _ .caseless "pinia".toList _ _ _ ?_ ?_⟩
  · exact .directive _ _ .caseless "vuex.+|pinia".toList _ _ _ rfl hfirst
  · exact .last _ _ _ _ _ hsecond (by decide)

/-- A crate that compiles it. -/
noncomputable def vuexCrate : RegexCrate :=
  crateOf ("(?i)" ++ "vuex.+|pinia") vuexOrPinia

/-- The prefix of a pattern with a branch that it is no prefix of. -/
theorem mandatory_prefix_sound_iff_vuex :
    (∀ text : String, isAscii text.toList = true → vuexCrate.isMatch () text = true →
        AhoCorasick.Occurs text.toList "vuex".toList) ↔
      (∀ branch ∈ vuexOrPinia.tail, AlwaysContains branch "vuex".toList) ∧
        (Misread .plain "vuex.+|pinia".toList →
          ∀ branch ∈ vuexOrPinia.head?, AlwaysContains branch "vuex".toList) :=
  mandatory_prefix_sound_iff (documented_crateOf reads_vuexOrPinia) (crateOf_new _ _) (by decide)

/-- A text without the prefix that the pattern matches. The pattern has a repetition, so it is no
needle and its prefix is asked for. -/
theorem mandatory_prefix_misses_pinia :
    Nonempty (Documented vuexCrate .plain) ∧
      asciiLiteralNeedle "vuex.+|pinia" = none ∧
      ∃ regex, vuexCrate.new ("(?i)" ++ "vuex.+|pinia") = some regex ∧
        mandatoryPrefix "vuex.+|pinia" = some "vuex" ∧ isAscii "pinia".toList = true ∧
        vuexCrate.isMatch regex "pinia" = true ∧
        ¬AhoCorasick.Occurs "pinia".toList "vuex".toList := by
  have hsecond : HasMatch (written .plain .caseless (plainTokens "pinia") .empty)
      "pinia".toList := by
    refine ⟨[], "pinia".toList ++ [], [], rfl, spans_written (by decide) ?_ rfl⟩
    exact (spells_iff rfl (by decide) (by decide)).mpr rfl
  refine ⟨⟨documented_crateOf reads_vuexOrPinia⟩, by decide, (), crateOf_new _ _, by decide,
    by decide, crateOf_isMatch.mpr ?_, by decide⟩
  exact ⟨_, List.mem_cons_of_mem _ List.mem_cons_self, hsecond⟩

end DomainStatus.Fingerprint
