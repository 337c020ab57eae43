import DomainStatus.Fingerprint.Patterns
import DomainStatus.Lib.AhoCorasick
import DomainStatus.Lib.BitSet
import DomainStatus.Lib.Interner
import DomainStatus.Lib.Rounds

/-!
# Literal needles of the body channels

One search through a text for the needles of all technologies, after
`src/fingerprint/patterns/literals.rs`. A pattern that is a plain text is found by the search alone,
and a regular expression with a fixed beginning is tried only where the search reports that
beginning. Read `compileStep_stable` first: a pattern's step does not depend on when the pattern was
compiled.
-/

namespace DomainStatus.Fingerprint

/-- The fewest characters of a prefix that is searched for. -/
def minPrefixLen : ℕ := 4

/-- The needles that were found in one text. -/
structure HitSet where
  bits : List (BitVec 64)

/-- No needle was found. -/
def HitSet.empty : HitSet :=
  { bits := [] }

/-- Whether the needle with the number was found. -/
def HitSet.contains (hits : HitSet) (id : ℕ) : Bool :=
  BitSet.contains hits.bits id

/-- The text that a pattern of escaped punctuation stands for. -/
def unescapeEscapedLiteral : List Char → Option (List Char)
  | [] => some []
  | '\\' :: [] => none
  | '\\' :: escaped :: rest =>
      if escaped.toNat ≥ 128 || escaped.isAlphanum then none
      else (unescapeEscapedLiteral rest).map (escaped :: ·)
  | ch :: rest =>
      if "^$[]()*+?\x7b\x7d|.".toList.contains ch then none
      else (unescapeEscapedLiteral rest).map (ch :: ·)

/-- The needle of a pattern that is an ASCII text. -/
def asciiLiteralNeedle (pat : String) : Option String :=
  if !Text.isAscii pat.toList then none
  else if isRegexPattern pat then
    (unescapeEscapedLiteral pat.toList).map fun needle =>
      Text.toAsciiLowercase (String.ofList needle)
  else some (Text.toAsciiLowercase pat)

/-- The characters before the first alternation, optional character or regex atom, backwards. An
alternation before any of these leaves no prefix. -/
def mandatoryPrefixAux : List Char → List Char → Option (List Char)
  | out, [] => some out
  | _, '\\' :: [] => none
  | out, '\\' :: escaped :: rest =>
      if escaped.toNat ≥ 128 || escaped.isAlphanum then some out
      else mandatoryPrefixAux (escaped :: out) rest
  | out, ch :: rest =>
      if ch = '|' then none
      else if ['(', '[', '.', '^', '$'].contains ch then some out
      else if ['*', '?', '+', '\x7b'].contains ch then
        -- The character before an optional repetition need not occur.
        let optional := ch = '*' || ch = '?' || (ch = '\x7b' && rest.head? = some '0')
        if optional then some out.tail else some out
      else if ch.toNat ≥ 128 then some out
      else mandatoryPrefixAux (ch :: out) rest

/-- The beginning that every match is taken to contain, if it is long enough. -/
def mandatoryPrefix (pat : String) : Option String :=
  (mandatoryPrefixAux [] pat.toList).bind fun out =>
    if minPrefixLen ≤ out.length then
      some (Text.toAsciiLowercase (String.ofList out.reverse))
    else none

variable (R : RegexCrate)

/-- What is done for one pattern when a text is matched. -/
inductive BodyStep where
  | any (versionTemplate : Option String)
  | literal (needleId : ℕ)
  | regex (pattern : CompiledPattern R) (prefixId : Option ℕ)

/-- The step for a pattern that needs the regex, if it compiles. -/
def regexStep (raw : String) (prefixId : Option ℕ) : Option (BodyStep R) :=
  match compilePattern R raw with
  | none => none
  | some (.any versionTemplate _) => some (.any versionTemplate)
  | some pattern => some (.regex pattern prefixId)

/-- The number of a prefix. -/
def internPrefix (needles : Interner) (lead : String) : Option ℕ × Interner :=
  needles.intern (Text.toAsciiLowercase lead)

/-- Compiles one pattern of a channel. -/
def compileStep (needles : Interner) (raw : String) : Option (BodyStep R) × Interner :=
  if raw = "" then (some (.any none), needles)
  else
    let parsed := parsePattern raw
    let pat := parsed.patternForMatch
    if parsed.confidence < minPatternConfidence then (none, needles)
    else if pat = "" then (some (.any parsed.versionTemplate), needles)
    else
      match asciiLiteralNeedle pat with
      | some needle =>
          -- A version has to be captured by the regular expression.
          if isRegexPattern pat && parsed.versionTemplate.isSome then
            let (prefixId, needles) := internPrefix needles needle
            (regexStep R raw prefixId, needles)
          else
            let (needleId, needles) := needles.intern needle
            (needleId.map .literal, needles)
      | none =>
          match mandatoryPrefix pat with
          | some lead =>
              let (prefixId, needles) := internPrefix needles lead
              (regexStep R raw prefixId, needles)
          | none => (regexStep R raw none, needles)

/-- Compiles the patterns of a channel in their order. -/
def compileSteps : List String → Interner → List (BodyStep R) × Interner
  | [], needles => ([], needles)
  | raw :: rest, needles =>
      let (step, needles) := compileStep R needles raw
      let (steps, needles) := compileSteps rest needles
      (step.toList ++ steps, needles)

variable {R}

/-- The match found so far. -/
structure Progress where
  matched : Bool
  version : Option String
  deriving DecidableEq

/-- Takes a result in. The search stops once there is a version. -/
def absorbResult (progress : Progress) (result : PatternMatchResult) : Progress × Bool :=
  if result.matched then
    let version := progress.version.or result.version
    ({ matched := true, version := version }, version.isSome)
  else (progress, false)

/-- Applies one step of a plan, and tells whether to stop here. -/
def applyStep (hits : HitSet) (text : String) (progress : Progress) (step : BodyStep R) :
    Progress × Bool :=
  match step with
  | .literal needleId =>
      if hits.contains needleId then absorbResult progress { matched := true, version := none }
      else (progress, false)
  | .regex pattern prefixId =>
      if prefixId.any fun prefixId => !hits.contains prefixId then (progress, false)
      else absorbResult progress (pattern.evaluate text)
  | .any versionTemplate => absorbResult progress (handleEmptyPattern versionTemplate)

/-- Runs the steps of a channel until there is a version. -/
def applySteps (steps : List (BodyStep R)) (hits : HitSet) (text : String) (progress : Progress) :
    Progress × Bool :=
  Rounds.forUntil (applyStep hits text) steps progress

/-- The four channels of a page. -/
inductive ChannelKind where
  | html | script | scripts | url
  deriving DecidableEq

/-- The patterns of a technology for a channel. -/
def Technology.patterns (tech : Technology) : ChannelKind → List String
  | .html => tech.html
  | .script => tech.script
  | .scripts => tech.scripts
  | .url => tech.url

/-- The automaton of a channel, given by its search, with the needles it was built from. -/
structure Channel where
  automaton : Option (String → List ℕ)
  needles : List String

/-- The needles that the search reports. -/
def findNeedles (aho : AhoCorasick) (needles : List String) (text : String) : List ℕ :=
  aho.findIter (needles.map String.toList) text.toList

/-- The search for the needles of a channel. Without needles there is none. -/
def Interner.finish (aho : AhoCorasick) (interner : Interner) : Channel :=
  if interner.needles = [] then { automaton := none, needles := [] }
  else { automaton := some (findNeedles aho interner.needles), needles := interner.needles }

/-- The needles of a channel that occur in a text, by one search. -/
def scanChannel (channel : Channel) (text : String) : HitSet :=
  match channel.automaton with
  | none => .empty
  | some findIter =>
      let words := (channel.needles.length + 63) / 64
      { bits := (findIter text).foldl
          (fun bits id => if id < 2 ^ 32 then BitSet.setBit bits id else bits)
          (List.replicate words 0#64) }

variable (R)

/-- The steps of a technology for each channel. -/
abbrev TechBodyPlan :=
  ChannelKind → List (BodyStep R)

/-- The needles of each channel and the plans of the technologies read so far. -/
structure IndexBuilder where
  interners : ChannelKind → Interner
  plans : HashMap String (TechBodyPlan R)

/-- Compiles the patterns of one technology. -/
def IndexBuilder.add (builder : IndexBuilder R) (name : String) (tech : Technology) :
    IndexBuilder R where
  interners kind := (compileSteps R (tech.patterns kind) (builder.interners kind)).2
  plans := builder.plans.insert name fun kind =>
    (compileSteps R (tech.patterns kind) (builder.interners kind)).1

/-- Compiles the patterns of all technologies in the order of the map. -/
def buildIndex (technologies : HashMap String Technology) : IndexBuilder R :=
  technologies.entries.foldl (fun builder entry => builder.add R entry.1 entry.2)
    { interners := fun _ => default, plans := ∅ }

/-- The automata of the channels and the plans of the technologies. -/
structure LiteralIndex where
  channels : ChannelKind → Channel
  plans : HashMap String (TechBodyPlan R)

/-- The needles of all channels, and the plans of all technologies. -/
def LiteralIndex.build (aho : AhoCorasick) (technologies : HashMap String Technology) :
    LiteralIndex R where
  channels kind := Interner.finish aho ((buildIndex R technologies).interners kind)
  plans := (buildIndex R technologies).plans

variable {R}

/-- The needles of a channel that the text has. -/
def LiteralIndex.scan (index : LiteralIndex R) (kind : ChannelKind) (text : String) : HitSet :=
  scanChannel (index.channels kind) text

/-- Matches the patterns of a technology for a channel against a text. -/
def LiteralIndex.matchChannel (index : LiteralIndex R) (tech : String) (kind : ChannelKind)
    (hits : HitSet) (text : String) (progress : Progress) : Progress × Bool :=
  match index.plans.lookup tech with
  | none => (progress, false)
  | some plan => applySteps (plan kind) hits text progress

/-! ## What a pattern waits for -/

/-- What becomes of a pattern, before its needle has a number. -/
inductive StepPlan where
  | dropped
  | any (versionTemplate : Option String)
  | literal (needle : String)
  | regex (lead : Option String)
  deriving DecidableEq

/-- The kind of step that a pattern becomes, and its needle. -/
def planStep (raw : String) : StepPlan :=
  let parsed := parsePattern raw
  let pat := parsed.patternForMatch
  if raw = "" then .any none
  else if parsed.confidence < minPatternConfidence then .dropped
  else if pat = "" then .any parsed.versionTemplate
  else
    match asciiLiteralNeedle pat with
    | some needle =>
        if isRegexPattern pat && parsed.versionTemplate.isSome then
          .regex (some (Text.toAsciiLowercase needle))
        else .literal needle
    | none => .regex ((mandatoryPrefix pat).map Text.toAsciiLowercase)

variable (R)

/-- The step of a pattern, by its plan. -/
def planned (needles : Interner) (raw : String) : StepPlan → Option (BodyStep R) × Interner
  | .dropped => (none, needles)
  | .any versionTemplate => (some (.any versionTemplate), needles)
  | .literal needle => ((needles.intern needle).1.map .literal, (needles.intern needle).2)
  | .regex none => (regexStep R raw none, needles)
  | .regex (some lead) => (regexStep R raw (needles.intern lead).1, (needles.intern lead).2)

/-- Compiling a step carries out its plan. -/
theorem compileStep_eq_planned (needles : Interner) (raw : String) :
    compileStep R needles raw = planned R needles raw (planStep raw) := by
  unfold compileStep planStep internPrefix
  dsimp only
  split
  · rfl
  split
  · rfl
  split
  · rfl
  cases hliteral : asciiLiteralNeedle (parsePattern raw).patternForMatch with
  | some _ =>
      dsimp only
      split <;> rfl
  | none => cases mandatoryPrefix (parsePattern raw).patternForMatch <;> rfl

section Stable

variable {R} {needles later : Interner}

/-- Compiling a step keeps the needles there are. -/
theorem compileStep_extends (needles : Interner) (raw : String) :
    (compileStep R needles raw).2.Extends needles := by
  rw [compileStep_eq_planned]
  match planStep raw with
  | .dropped | .any _ | .regex none => exact Interner.Extends.refl _
  | .literal needle => exact Interner.intern_extends _ _
  | .regex (some lead) => exact Interner.intern_extends _ _

/-- A pattern that is compiled again later gives the same step and no new needle. -/
theorem compileStep_stable {raw : String} (hlater : later.Extends (compileStep R needles raw).2) :
    compileStep R later raw = ((compileStep R needles raw).1, later) := by
  rw [compileStep_eq_planned] at hlater ⊢
  rw [compileStep_eq_planned]
  match hplan : planStep raw with
  | .dropped | .any _ | .regex none => rfl
  | .literal needle =>
      rw [hplan] at hlater
      simp only [planned, Interner.intern_stable hlater]
  | .regex (some lead) =>
      rw [hplan] at hlater
      simp only [planned, Interner.intern_stable hlater]

/-- Compiling steps keeps the needles there are. -/
theorem compileSteps_extends (patterns : List String) (needles : Interner) :
    (compileSteps R patterns needles).2.Extends needles := by
  induction patterns generalizing needles with
  | nil => exact Interner.Extends.refl _
  | cons raw rest ih => exact (ih _).trans (compileStep_extends needles raw)

/-- Later needles do not change what was compiled. -/
theorem compileSteps_stable {patterns : List String}
    (hlater : later.Extends (compileSteps R patterns needles).2) :
    (compileSteps R patterns needles).1 =
      patterns.filterMap fun raw => (compileStep R later raw).1 := by
  induction patterns generalizing needles with
  | nil => rfl
  | cons raw rest ih =>
      have hrest := @ih (compileStep R needles raw).2 hlater
      have hraw := compileStep_stable (hlater.trans (compileSteps_extends rest _))
      simp only [compileSteps, hrest, List.filterMap_cons, hraw]
      cases (compileStep R needles raw).1 <;> rfl

/-- A pattern that was compiled adds no needle a second time. -/
theorem compileSteps_needles {patterns : List String}
    (hlater : later.Extends (compileSteps R patterns needles).2) {raw : String}
    (hraw : raw ∈ patterns) : (compileStep R later raw).2 = later := by
  induction patterns generalizing needles with
  | nil => cases hraw
  | cons first rest ih =>
      rcases List.mem_cons.mp hraw with rfl | hrest
      · rw [compileStep_stable (hlater.trans (compileSteps_extends rest _))]
      · exact @ih (compileStep R needles first).2 hlater hrest

/-- After all technologies are compiled, each plan is what its patterns compile to with the needles
of all of them. -/
theorem foldl_add (entries : List (Sigma fun _ : String => Technology))
    (hnodup : entries.NodupKeys) (builder : IndexBuilder R) :
    let final := entries.foldl (fun builder entry => builder.add R entry.1 entry.2) builder
    (∀ kind, (final.interners kind).Extends (builder.interners kind)) ∧
      (∀ name ∉ entries.keys, final.plans.lookup name = builder.plans.lookup name) ∧
      ∀ entry ∈ entries, ∃ plan, final.plans.lookup entry.1 = some plan ∧ ∀ kind,
        plan kind = ((entry.2.patterns kind).filterMap fun raw =>
          (compileStep R (final.interners kind) raw).1) ∧
        ∀ raw ∈ entry.2.patterns kind,
          (compileStep R (final.interners kind) raw).2 = final.interners kind := by
  induction entries generalizing builder with
  | nil =>
      exact ⟨fun kind => Interner.Extends.refl _, fun _ _ => rfl, fun _ h => absurd h (by simp)⟩
  | cons entry rest ih =>
      obtain ⟨hnew, hrest⟩ := List.nodupKeys_cons.mp hnodup
      obtain ⟨hextends, hother, hplans⟩ := ih hrest (builder.add R entry.1 entry.2)
      refine ⟨fun kind => (hextends kind).trans (compileSteps_extends _ _), ?_, ?_⟩
      · intro name hname
        rw [List.keys_cons, List.mem_cons, not_or] at hname
        rw [List.foldl_cons, hother name hname.2]
        exact AList.lookup_insert_ne hname.1
      · intro found hfound
        rcases List.mem_cons.mp hfound with rfl | hfound
        · -- The plan of a technology is not written again, since names are distinct.
          refine ⟨_, (hother found.1 hnew).trans (AList.lookup_insert _), fun kind => ?_⟩
          exact ⟨compileSteps_stable (hextends kind),
            fun raw hraw => compileSteps_needles (hextends kind) hraw⟩
        · exact hplans found hfound

end Stable

section Search

variable {R} (aho : AhoCorasick)

/-- The search reports the needle. -/
def reported (needles : List String) (text needle : String) : Bool :=
  (findNeedles aho needles text).any fun id => needles[id]? == some needle

variable {aho}

/-- The hits of a channel are the numbers that the search reports. -/
theorem contains_scanChannel (interner : Interner) (text : String) (id : ℕ) :
    (scanChannel (Interner.finish aho interner) text).contains id =
      decide (id ∈ findNeedles aho interner.needles text) := by
  have hlt : ∀ id ∈ findNeedles aho interner.needles text, id < interner.needles.length :=
    fun id hid => by simpa using AhoCorasick.lt_of_mem_findIter _ _ hid
  by_cases hempty : interner.needles = []
  · have hnone : id ∉ findNeedles aho interner.needles text := fun hid => by
      have := hlt id hid
      simp [hempty] at this
    rw [decide_eq_false hnone, Interner.finish, if_pos hempty]
    rfl
  · have hsmall : (findNeedles aho interner.needles text).foldl
        (fun bits id => if id < 2 ^ 32 then BitSet.setBit bits id else bits)
        (List.replicate ((interner.needles.length + 63) / 64) 0#64) =
        (findNeedles aho interner.needles text).foldl BitSet.setBit
          (List.replicate ((interner.needles.length + 63) / 64) 0#64) := by
      apply List.foldl_ext
      intro bits id hid
      exact if_pos ((hlt id hid).trans_le interner.length_le)
    simp only [Interner.finish, hempty, if_false, scanChannel, HitSet.contains, hsmall,
      BitSet.contains_foldl_setBit, BitSet.contains_replicate, Bool.false_or,
      List.length_replicate, decide_eq_decide]
    constructor
    · exact fun h => h.1
    · intro hid
      have := hlt id hid
      exact ⟨hid, by omega⟩

/-- The needle with a number is reported when its number is among the hits. -/
theorem contains_scanChannel_eq_reported {interner : Interner} {needle : String} {id : ℕ}
    (hid : interner.needles[id]? = some needle) (text : String) :
    (scanChannel (Interner.finish aho interner) text).contains id =
      reported aho interner.needles text needle := by
  rw [contains_scanChannel, reported, Bool.eq_iff_iff, decide_eq_true_eq, List.any_eq_true]
  constructor
  · exact fun h => ⟨id, h, by simpa using hid⟩
  · intro h
    obtain ⟨other, hother, hneedle⟩ := h
    -- A needle has one number only.
    have hlookup := (interner.lookup_iff needle other).mpr (by simpa using hneedle)
    rw [(interner.lookup_iff needle id).mpr hid, Option.some.injEq] at hlookup
    rwa [hlookup]

/-- Only needles of the automaton are reported. -/
theorem reported_of_notMem {needles : List String} {needle : String} (hnew : needle ∉ needles)
    (text : String) : reported aho needles text needle = false := by
  rw [reported, List.any_eq_false]
  intro id _ hid
  exact hnew (List.mem_of_getElem? (by simpa using hid))

end Search

section Gate

variable (aho : AhoCorasick) (needles : List String)

/-- The result of a pattern's step: a literal is as good as its needle, and a regular expression is
tried when its prefix is reported or could not be numbered. -/
def gatedResult (raw text : String) : PatternMatchResult :=
  match planStep raw with
  | .literal needle =>
      if reported aho needles text needle then { matched := true, version := none } else .noMatch
  | .regex (some lead) =>
      if needles.contains lead && !reported aho needles text lead then .noMatch
      else patternResult R raw text
  | _ => patternResult R raw text

variable {R aho needles} {raw : String}

@[simp] theorem absorbResult_noMatch (progress : Progress) :
    absorbResult progress .noMatch = (progress, false) := rfl

/-- What a pattern is planned as and what it compiles to. A literal captures no version. -/
theorem planStep_cases (R : RegexCrate) (raw : String) :
    (planStep raw = .dropped ∧ compilePattern R raw = none) ∨
      (∃ versionTemplate presenceOnly, planStep raw = .any versionTemplate ∧
        compilePattern R raw = some (.any versionTemplate presenceOnly)) ∨
      (∃ needle source, planStep raw = .literal needle ∧
        compilePattern R raw = (R.new source).map (.regex · none)) ∨
      ∃ lead source versionTemplate, planStep raw = .regex lead ∧
        compilePattern R raw = (R.new source).map (.regex · versionTemplate) := by
  unfold planStep compilePattern
  dsimp only
  by_cases hraw : raw = ""
  · exact Or.inr (Or.inl ⟨none, true, by simp [hraw]⟩)
  by_cases hconfidence : (parsePattern raw).confidence < minPatternConfidence
  · exact Or.inl (by simp [hraw, hconfidence])
  by_cases hpat : (parsePattern raw).patternForMatch = ""
  · exact Or.inr (Or.inl ⟨(parsePattern raw).versionTemplate, false,
      by simp [hraw, hconfidence, hpat]⟩)
  simp only [hraw, hconfidence, hpat, if_false]
  right
  right
  cases asciiLiteralNeedle (parsePattern raw).patternForMatch with
  | none =>
      right
      by_cases hregexLike : isRegexPattern (parsePattern raw).patternForMatch
      · exact ⟨_, _, _, rfl, by rw [if_pos hregexLike]⟩
      · exact ⟨_, _, _, rfl, by rw [if_neg hregexLike]⟩
  | some needle =>
      by_cases hregexLike : isRegexPattern (parsePattern raw).patternForMatch
      · cases htemplate : (parsePattern raw).versionTemplate with
        | none => exact Or.inl ⟨needle, _, by simp, by rw [if_pos hregexLike]⟩
        | some template =>
            exact Or.inr ⟨some (Text.toAsciiLowercase needle), _, _, by simp [hregexLike],
              by rw [if_pos hregexLike]⟩
      · exact Or.inl ⟨needle, _, by simp [hregexLike], by rw [if_neg hregexLike]⟩

/-- A literal captures no version. -/
theorem version_patternResult_of_literal {needle : String} (hplan : planStep raw = .literal needle)
    (text : String) : (patternResult R raw text).version = none := by
  obtain ⟨h, -⟩ | ⟨_, _, h, -⟩ | ⟨_, source, -, hcompile⟩ | ⟨_, _, _, h, -⟩ :=
    planStep_cases R raw
  · cases hplan.symm.trans h
  · cases hplan.symm.trans h
  · unfold patternResult
    rw [hcompile]
    cases R.new source with
    | none => rfl
    | some regex => rfl
  · cases hplan.symm.trans h

/-- Running the step of a pattern, or nothing when it has none. -/
def runStep (hits : HitSet) (text : String) (progress : Progress) (step : Option (BodyStep R)) :
    Progress × Bool :=
  step.elim (progress, false) (applyStep hits text progress)

/-- A regular expression behind a gate. -/
theorem runStep_regexStep {source : String} {versionTemplate : Option String}
    (hcompile : compilePattern R raw = (R.new source).map (.regex · versionTemplate))
    (hits : HitSet) (text : String) (progress : Progress) (prefixId : Option ℕ) :
    runStep hits text progress (regexStep R raw prefixId) =
      if prefixId.any fun prefixId => !hits.contains prefixId then (progress, false)
      else absorbResult progress (patternResult R raw text) := by
  unfold regexStep patternResult
  rw [hcompile]
  cases R.new source with
  | none => exact (ite_self (progress, false)).symm
  | some regex => rfl

/-- The step that a pattern compiles to finds what the gated pattern finds. -/
theorem runStep_compileStep {interner : Interner}
    (hneedles : (compileStep R interner raw).2 = interner) (text : String) (progress : Progress) :
    runStep (scanChannel (Interner.finish aho interner) text) text progress
        (compileStep R interner raw).1 =
      absorbResult progress (gatedResult R aho interner.needles raw text) := by
  rw [compileStep_eq_planned] at hneedles ⊢
  unfold gatedResult
  -- No needle is new here, so a needle has its final number or none at all.
  obtain ⟨hplan, hcompile⟩ | ⟨versionTemplate, presenceOnly, hplan, hcompile⟩ |
    ⟨needle, source, hplan, -⟩ | ⟨lead, source, versionTemplate, hplan, hcompile⟩ :=
      planStep_cases R raw
  · simp only [hplan, planned, patternResult, hcompile]
    rfl
  · simp only [hplan, planned, patternResult, hcompile]
    rfl
  · simp only [hplan, planned] at hneedles ⊢
    obtain ⟨id, hid, h⟩ | ⟨hnew, h⟩ := Interner.intern_known hneedles
    · rw [h]
      simp only [Option.map_some, runStep, Option.elim_some, applyStep,
        contains_scanChannel_eq_reported hid]
      split
      · rfl
      · rfl
    · rw [h, reported_of_notMem hnew]
      rfl
  · cases lead with
    | none =>
        simp only [hplan, planned, runStep_regexStep hcompile]
        rfl
    | some lead =>
        simp only [hplan, planned, runStep_regexStep hcompile] at hneedles ⊢
        obtain ⟨id, hid, h⟩ | ⟨hnew, h⟩ := Interner.intern_known hneedles
        · have hmem : interner.needles.contains lead :=
            List.contains_iff_mem.mpr (List.mem_of_getElem? hid)
          rw [h]
          simp only [Option.any_some, contains_scanChannel_eq_reported hid, hmem, Bool.true_and]
          split
          · rfl
          · rfl
        · have hmem : interner.needles.contains lead = false := by simpa using hnew
          rw [h, hmem]
          rfl

/-- The compiled steps of a channel find what its gated patterns find. -/
theorem applySteps_filterMap {interner : Interner} {patterns : List String}
    (hneedles : ∀ raw ∈ patterns, (compileStep R interner raw).2 = interner) (text : String)
    (progress : Progress) :
    applySteps (patterns.filterMap fun raw => (compileStep R interner raw).1)
        (scanChannel (Interner.finish aho interner) text) text progress =
      Rounds.forUntil (fun progress raw =>
        absorbResult progress (gatedResult R aho interner.needles raw text)) patterns progress := by
  induction patterns generalizing progress with
  | nil => rfl
  | cons raw rest ih =>
      have hrest := ih fun other hother => hneedles other (List.mem_cons_of_mem _ hother)
      have hstep := @runStep_compileStep R aho raw interner
        (hneedles raw (List.mem_cons_self ..)) text progress
      rw [List.filterMap_cons, Rounds.forUntil, ← hstep]
      cases hcompiled : (compileStep R interner raw).1 with
      | none => exact hrest progress
      | some step =>
          simp only [applySteps, Rounds.forUntil, runStep, Option.elim_some] at hrest ⊢
          rw [hrest]
          rfl

end Gate

end DomainStatus.Fingerprint
