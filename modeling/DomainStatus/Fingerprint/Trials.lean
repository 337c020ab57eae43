import DomainStatus.Fingerprint.Body
import Mathlib.Data.Finset.Basic
import Mathlib.Data.Finset.Dedup

/-!
# Body detection, trial by trial

A trial is one pattern of a technology against one text of the page. Body detection stops within a
channel, and skips whole channels, once a version is captured. Read `checkBodyWithRuleset_eq` first:
what it reports of a technology is what all its trials show, taken one by one.
-/

namespace DomainStatus.Fingerprint

variable {R : RegexCrate}

/-- The source that a match in the channel is reported with. -/
def ChannelKind.source : ChannelKind → DetectionSource
  | .html => .html
  | .script => .scriptSrc
  | .scripts => .scripts
  | .url => .url

/-- The channels have different sources. -/
theorem ChannelKind.source_injective : Function.Injective ChannelKind.source := by
  intro left right h
  cases left <;> cases right <;> first | rfl | cases h

/-- One pattern of a technology against one text of the page. -/
structure BodyTrial where
  kind : ChannelKind
  pattern : String
  text : String

/-- The trials of a channel against one of its texts. -/
def channelTrials (tech : Technology) (kind : ChannelKind) (text : String) : List BodyTrial :=
  (tech.patterns kind).map fun pattern => { kind := kind, pattern := pattern, text := text }

/-- All trials of a technology, in the order of the channels. -/
def bodyTrials (tech : Technology) (page : PageText) : List BodyTrial :=
  channelTrials tech .html page.htmlBody ++
    page.scriptSources.flatMap (channelTrials tech .script) ++
    (if page.inlineScriptText = "" then []
      else channelTrials tech .scripts page.inlineScriptText) ++
    channelTrials tech .url page.url

/-- The trials of the channels that come before the meta tags. -/
def trialsBeforeMeta (tech : Technology) (page : PageText) : List BodyTrial :=
  channelTrials tech .html page.htmlBody ++
    page.scriptSources.flatMap (channelTrials tech .script) ++
    (if page.inlineScriptText = "" then []
      else channelTrials tech .scripts page.inlineScriptText)

/-- Takes the result of a trial into a verdict. -/
def Verdict.absorb (result : BodyTrial → PatternMatchResult) (verdict : Verdict)
    (trial : BodyTrial) : Verdict :=
  if (result trial).matched then
    { matched := true, version := verdict.version.or (result trial).version,
      source := verdict.source.or (some trial.kind.source) }
  else verdict

/-- A verdict has a source when it is a match, and a version only then. -/
structure Verdict.Consistent (verdict : Verdict) : Prop where
  source : verdict.source.isSome = verdict.matched
  version : verdict.version.isSome → verdict.matched

section Absorb

variable {result : BodyTrial → PatternMatchResult} {verdict : Verdict}

/-- The first verdict is consistent. -/
theorem Verdict.consistent_start : Verdict.start.Consistent :=
  ⟨rfl, by simp [Verdict.start]⟩

/-- A trial keeps the verdict consistent. -/
theorem Verdict.Consistent.absorb (hverdict : verdict.Consistent) (trial : BodyTrial) :
    (verdict.absorb result trial).Consistent := by
  unfold Verdict.absorb
  split
  · exact ⟨by simp, fun _ => rfl⟩
  · exact hverdict

/-- Trials keep the verdict consistent. -/
theorem Verdict.Consistent.foldl (hverdict : verdict.Consistent) (trials : List BodyTrial) :
    (trials.foldl (Verdict.absorb result) verdict).Consistent := by
  induction trials generalizing verdict with
  | nil => exact hverdict
  | cons trial rest ih => exact ih (hverdict.absorb trial)

/-- Nothing changes a verdict that has a version. -/
theorem Verdict.Consistent.absorb_eq (hverdict : verdict.Consistent)
    (hversion : verdict.version.isSome) (trial : BodyTrial) :
    verdict.absorb result trial = verdict := by
  unfold Verdict.absorb
  split
  · obtain ⟨version, hversion⟩ := Option.isSome_iff_exists.mp hversion
    have hmatched : verdict.matched = true := hverdict.version (by simp [hversion])
    obtain ⟨source, hsource⟩ := Option.isSome_iff_exists.mp (hverdict.source.trans hmatched)
    cases verdict
    simp_all
  · rfl

/-- A verdict with a version is final. -/
theorem Verdict.Consistent.foldl_eq (hverdict : verdict.Consistent)
    (hversion : verdict.version.isSome) (trials : List BodyTrial) :
    trials.foldl (Verdict.absorb result) verdict = verdict :=
  List.foldl_fixed' (hverdict.absorb_eq hversion) trials

end Absorb

/-- A part of a matcher that takes the trials into the verdict one by one. The verdict is read off
a state that is in order. -/
structure Advances {σ : Type} (good : σ → Prop) (view : σ → Verdict)
    (result : BodyTrial → PatternMatchResult) (next : σ → σ) (trials : List BodyTrial) : Prop where
  keeps : ∀ state, good state → good (next state)
  verdict : ∀ state, good state →
    view (next state) = trials.foldl (Verdict.absorb result) (view state)

namespace Advances

variable {σ β : Type} {good : σ → Prop} {view : σ → Verdict}
  {result : BodyTrial → PatternMatchResult} {next other : σ → σ} {trials others : List BodyTrial}

/-- No trial, no advance. -/
theorem refl : Advances good view result (fun state => state) [] :=
  ⟨fun _ h => h, fun _ _ => rfl⟩

/-- Advances follow each other. -/
theorem trans (hnext : Advances good view result next trials)
    (hother : Advances good view result other others) :
    Advances good view result (fun state => other (next state)) (trials ++ others) where
  keeps state hstate := hother.keeps _ (hnext.keeps state hstate)
  verdict state hstate := by
    rw [hother.verdict _ (hnext.keeps state hstate), hnext.verdict state hstate, List.foldl_append]

/-- Skipping the part when there is a version does not show. -/
theorem unlessVersion (hgood : ∀ state, good state → (view state).Consistent)
    (hnext : Advances good view result next trials) :
    Advances good view result (unlessVersion (fun state => (view state).version) next) trials := by
  constructor
  · intro state hstate
    unfold Fingerprint.unlessVersion
    split
    · exact hnext.keeps state hstate
    · exact hstate
  · intro state hstate
    unfold Fingerprint.unlessVersion
    split
    case isTrue => exact hnext.verdict state hstate
    case isFalse hversion =>
      exact ((hgood state hstate).foldl_eq (by simpa [Option.isSome_iff_ne_none] using hversion)
        trials).symm

/-- A loop that ends with the first version takes all trials in. -/
theorem forUntil {body : σ → β → σ × Bool} {trials : β → List BodyTrial}
    (hgood : ∀ state, good state → (view state).Consistent)
    (hbody : ∀ x, Advances good view result (fun state => (body state x).1) (trials x))
    (hstop : ∀ state x, good state → (body state x).2 →
      (view (body state x).1).version.isSome) (xs : List β) :
    Advances good view result (fun state => (Rounds.forUntil body xs state).1)
      (xs.flatMap trials) := by
  have hloop := fun state (hstate : good state) =>
    @Rounds.view_forUntil _ _ _ _ good view
      (fun verdict x => (trials x).foldl (Verdict.absorb result) verdict)
      (fun state x h => (hbody x).keeps state h) (fun state x h => (hbody x).verdict state h)
      (fun state x h hleave _ =>
        (hgood _ ((hbody x).keeps state h)).foldl_eq (hstop state x h hleave) _) xs state hstate
  constructor
  · exact fun state hstate => (hloop state hstate).1
  · intro state hstate
    rw [List.foldl_flatMap]
    exact (hloop state hstate).2

end Advances

section Channels

variable {verdict : Verdict}

/-- A version is only there with a match. -/
def Progress.Consistent (progress : Progress) : Prop :=
  progress.version.isSome → progress.matched

/-- The progress of a consistent verdict is consistent. -/
theorem Verdict.Consistent.progress (hverdict : verdict.Consistent) :
    verdict.progress.Consistent :=
  hverdict.version

/-- A result keeps the progress consistent. -/
theorem Progress.Consistent.absorbResult {progress : Progress} (hprogress : progress.Consistent)
    (result : PatternMatchResult) : (absorbResult progress result).1.Consistent := by
  unfold Fingerprint.absorbResult
  split
  · exact fun _ => rfl
  · exact hprogress

/-- Once a version is there, further results change nothing. -/
theorem absorbResult_of_stop {progress : Progress} {result : PatternMatchResult}
    (hstop : (absorbResult progress result).2) (other : PatternMatchResult) :
    (absorbResult (absorbResult progress result).1 other).1 = (absorbResult progress result).1 := by
  unfold absorbResult at hstop ⊢
  split at hstop
  case isTrue hmatched =>
    obtain ⟨version, hversion⟩ := Option.isSome_iff_exists.mp hstop
    simp only [hmatched, if_true, hversion]
    split <;> rfl
  case isFalse => cases hstop

/-- The loop stops only with a version. -/
theorem absorbResult_captured {progress : Progress} {result : PatternMatchResult}
    (hstop : (absorbResult progress result).2) :
    (absorbResult progress result).1.matched ∧
      (absorbResult progress result).1.version.isSome := by
  unfold absorbResult at hstop ⊢
  split at hstop
  case isTrue hmatched => simpa [hmatched] using hstop
  case isFalse => cases hstop

/-- The early stop within a channel does not show. -/
theorem forUntil_absorbResult (result : String → PatternMatchResult) (patterns : List String)
    {progress : Progress} (hprogress : progress.Consistent) :
    (Rounds.forUntil (fun progress raw => absorbResult progress (result raw)) patterns
        progress).1.Consistent ∧
      (Rounds.forUntil (fun progress raw => absorbResult progress (result raw)) patterns
        progress).1 =
        patterns.foldl (fun progress raw => (absorbResult progress (result raw)).1) progress :=
  Rounds.view_forUntil Progress.Consistent id (fun _ _ h => h.absorbResult _) (fun _ _ _ => rfl)
    (fun _ _ _ hstop _ => absorbResult_of_stop hstop _) patterns hprogress

/-- What is matched stays matched. -/
theorem absorbResult_matched {progress : Progress} (hmatched : progress.matched)
    (result : PatternMatchResult) : (absorbResult progress result).1.matched := by
  unfold absorbResult
  split
  · rfl
  · exact hmatched

/-- What is matched stays matched through all patterns. -/
theorem foldl_absorbResult_matched (result : String → PatternMatchResult) (patterns : List String)
    {progress : Progress} (hmatched : progress.matched) :
    (patterns.foldl (fun progress raw => (absorbResult progress (result raw)).1)
      progress).matched := by
  induction patterns generalizing progress with
  | nil => exact hmatched
  | cons raw rest ih =>
      exact ih (absorbResult_matched hmatched _)

/-- A channel advances the verdict as its trials do one by one. -/
theorem advance_foldl (result : BodyTrial → PatternMatchResult) (kind : ChannelKind)
    (text : String) (patterns : List String) (hverdict : verdict.Consistent) :
    verdict.advance kind.source (patterns.foldl
        (fun progress raw => (absorbResult progress (result ⟨kind, raw, text⟩)).1)
        verdict.progress) =
      (patterns.map fun raw => (⟨kind, raw, text⟩ : BodyTrial)).foldl (Verdict.absorb result)
        verdict := by
  induction patterns generalizing verdict with
  | nil => cases verdict; simp [Verdict.advance, Verdict.progress]
  | cons raw rest ih =>
      have hprogress : (verdict.absorb result ⟨kind, raw, text⟩).progress =
          (absorbResult verdict.progress (result ⟨kind, raw, text⟩)).1 := by
        unfold Verdict.absorb absorbResult
        split <;> rfl
      rw [List.map_cons, List.foldl_cons, List.foldl_cons,
        ← ih (hverdict.absorb ⟨kind, raw, text⟩), hprogress]
      by_cases hmatched : (result ⟨kind, raw, text⟩).matched
      · have hfold := foldl_absorbResult_matched (fun raw => result ⟨kind, raw, text⟩) rest
          (show (absorbResult verdict.progress (result ⟨kind, raw, text⟩)).1.matched by
            simp [absorbResult, hmatched])
        have hsource := hverdict.source
        cases hfirst : verdict.source with
        | none => simp_all [Verdict.advance, Verdict.absorb]
        | some source => simp_all [Verdict.advance, Verdict.absorb]
      · simp [Verdict.absorb, hmatched]

end Channels

/-! ## The literal index, trial by trial -/

section Index

variable (R) (aho : AhoCorasick) (technologies : HashMap String Technology)

/-- The needles of a channel. -/
def channelNeedles (kind : ChannelKind) : List String :=
  ((buildIndex R technologies).interners kind).needles

/-- The result of a trial by the literal index. -/
def indexResult (trial : BodyTrial) : PatternMatchResult :=
  gatedResult R aho (channelNeedles R technologies trial.kind) trial.pattern trial.text

variable {R aho technologies} {name : String} {tech : Technology} {verdict : Verdict}

/-- A channel of a technology runs its patterns behind their gates. -/
theorem matchChannel_eq (htech : technologies.lookup name = some tech) (kind : ChannelKind)
    (text : String) (progress : Progress) :
    let index := LiteralIndex.build R aho technologies
    index.matchChannel name kind (index.scan kind text) text progress =
      Rounds.forUntil (fun progress raw =>
        absorbResult progress (indexResult R aho technologies ⟨kind, raw, text⟩))
        (tech.patterns kind) progress := by
  have hentry : (⟨name, tech⟩ : Sigma fun _ : String => Technology) ∈ technologies.entries :=
    AList.mem_lookup_iff.mp htech
  obtain ⟨-, -, hplans⟩ := foldl_add (R := R) technologies.entries technologies.nodupKeys
    { interners := fun _ => default, plans := ∅ }
  obtain ⟨plan, hplan, hsteps⟩ := hplans _ hentry
  obtain ⟨hfilter, hneedles⟩ := hsteps kind
  intro index
  have hlookup : index.plans.lookup name = some plan := hplan
  rw [LiteralIndex.matchChannel, hlookup]
  dsimp only
  rw [hfilter]
  exact applySteps_filterMap hneedles text progress

/-- A channel of the literal index takes its trials in. -/
theorem advances_matchChannel (htech : technologies.lookup name = some tech) (kind : ChannelKind)
    (text : String) :
    let index := LiteralIndex.build R aho technologies
    Advances Verdict.Consistent id (indexResult R aho technologies)
      (fun verdict => verdict.advance kind.source
        (index.matchChannel name kind (index.scan kind text) text verdict.progress).1)
      (channelTrials tech kind text) := by
  intro index
  have hverdict : ∀ verdict : Verdict, verdict.Consistent → verdict.advance kind.source
      (index.matchChannel name kind (index.scan kind text) text verdict.progress).1 =
        (channelTrials tech kind text).foldl (Verdict.absorb (indexResult R aho technologies))
          verdict := by
    intro verdict hconsistent
    rw [matchChannel_eq htech, (forUntil_absorbResult _ _ hconsistent.progress).2]
    exact advance_foldl (indexResult R aho technologies) kind text (tech.patterns kind)
      hconsistent
  exact ⟨fun verdict h => hverdict verdict h ▸ h.foldl _, hverdict⟩

/-- A channel stops only with a version. -/
theorem matchChannel_captured (htech : technologies.lookup name = some tech) (kind : ChannelKind)
    (text : String) (progress : Progress) :
    let index := LiteralIndex.build R aho technologies
    let run := index.matchChannel name kind (index.scan kind text) text progress
    run.2 → run.1.matched ∧ run.1.version.isSome := by
  intro index run hrun
  have hrun' : run = _ := matchChannel_eq htech kind text progress
  rw [hrun'] at hrun ⊢
  exact @Rounds.forUntil_left _ _ _ (fun progress => progress.matched ∧ progress.version.isSome)
    (fun _ _ hstop => absorbResult_captured hstop) _ _ hrun

/-- A captured version gives a script source the same credit as any match does. -/
theorem matchScriptSource_eq (htech : technologies.lookup name = some tech) (scriptSrc : String)
    (hverdict : verdict.Consistent) :
    let index := LiteralIndex.build R aho technologies
    let run := matchScriptSource index name verdict (scriptSrc, index.scan .script scriptSrc)
    run.1 = verdict.advance .scriptSrc (index.matchChannel name .script
        (index.scan .script scriptSrc) scriptSrc verdict.progress).1 ∧
      (run.2 → run.1.version.isSome) := by
  intro index run
  have hcaptured := @matchChannel_captured R aho _ _ _ htech .script scriptSrc verdict.progress
  simp only [run, matchScriptSource]
  cases hrun : index.matchChannel name .script (index.scan .script scriptSrc) scriptSrc
      verdict.progress with
  | mk progress captured =>
      cases captured with
      | false => exact ⟨rfl, fun h => by cases h⟩
      | true =>
          obtain ⟨hmatched, hversion⟩ : progress.matched ∧ progress.version.isSome := by
            simpa [index, hrun] using hcaptured
          refine ⟨?_, fun _ => hversion⟩
          -- A verdict without a source is no match yet, so both ways name the script source.
          have hsource := hverdict.source
          cases hfirst : verdict.source with
          | none => simp_all [Verdict.advance]
          | some source => simp_all [Verdict.advance]

/-- The script sources take all their trials in. -/
theorem advances_scriptSources (htech : technologies.lookup name = some tech)
    (scriptSources : List String) :
    let index := LiteralIndex.build R aho technologies
    Advances Verdict.Consistent id (indexResult R aho technologies)
      (fun verdict => (Rounds.forUntil (matchScriptSource index name)
        (scriptSources.zip (scriptSources.map (index.scan .script))) verdict).1)
      (scriptSources.flatMap (channelTrials tech .script)) := by
  intro index
  simp only [← List.map_prod_left_eq_zip, Rounds.forUntil_map]
  refine Advances.forUntil (fun _ h => h) (fun scriptSrc => ?_) ?_ scriptSources
  · have hchannel := @advances_matchChannel R aho _ _ _ htech .script scriptSrc
    constructor
    · intro verdict hverdict
      rw [(matchScriptSource_eq htech scriptSrc hverdict).1]
      exact hchannel.keeps verdict hverdict
    · intro verdict hverdict
      rw [(matchScriptSource_eq htech scriptSrc hverdict).1]
      exact hchannel.verdict verdict hverdict
  · intro verdict scriptSrc hverdict
    exact (matchScriptSource_eq htech scriptSrc hverdict).2

/-- Without meta tags no meta pattern matches. -/
theorem matchMeta_empty (toLowercase : String → String)
    (techMeta : List (String × List (CompiledPattern R))) (progress : Progress) :
    matchMeta toLowercase techMeta ∅ progress = progress := by
  have hnone : ∀ entry : String × List (CompiledPattern R),
      checkCompiledMetaPatterns toLowercase entry.1 entry.2 ∅ = .noMatch := by
    intro entry
    have hkeys : (routedMetaKeys (toLowercase entry.1)).findSome? (fun _ : String =>
        (none : Option PatternMatchResult)) = none := List.findSome?_eq_none_iff.mpr (by simp)
    simp [checkCompiledMetaPatterns, routeMetaKey, hkeys]
  unfold matchMeta
  simp only [hnone, absorbResult_noMatch]
  induction techMeta with
  | nil => rfl
  | cons entry rest ih => exact ih

/-- No progress, no advance. -/
theorem Verdict.advance_progress (verdict : Verdict) (source : DetectionSource) :
    verdict.advance source verdict.progress = verdict := by
  cases verdict
  simp [Verdict.advance, Verdict.progress]

/-- The part of `checkTechnology` that comes before the meta tags. -/
def matchBeforeMeta (index : LiteralIndex R) (page : PageText) (techName : String)
    (verdict : Verdict) : Verdict :=
  let verdict := verdict.advance .html (index.matchChannel techName .html
    (index.scan .html page.htmlBody) page.htmlBody verdict.progress).1
  let verdict := unlessVersion Verdict.version
    (fun verdict => (Rounds.forUntil (matchScriptSource index techName)
      (page.scriptSources.zip (page.scriptSources.map (index.scan .script))) verdict).1)
    verdict
  unlessVersion Verdict.version
    (fun verdict =>
      if page.inlineScriptText = "" then verdict
      else
        verdict.advance .scripts
          (index.matchChannel techName .scripts (index.scan .scripts page.inlineScriptText)
            page.inlineScriptText verdict.progress).1)
    verdict

/-- The channels before the meta tags advance the verdict by their trials. -/
theorem advances_beforeMeta (htech : technologies.lookup name = some tech) (page : PageText) :
    Advances Verdict.Consistent id (indexResult R aho technologies)
      (matchBeforeMeta (LiteralIndex.build R aho technologies) page name)
      (trialsBeforeMeta tech page) := by
  have hgood : ∀ verdict : Verdict, verdict.Consistent → (id verdict).Consistent := fun _ h => h
  have hhtml := @advances_matchChannel R aho _ _ _ htech .html page.htmlBody
  have hscripts := @advances_scriptSources R aho _ _ _ htech page.scriptSources
  have hinline : Advances Verdict.Consistent id (indexResult R aho technologies)
      (fun verdict =>
        if page.inlineScriptText = "" then verdict
        else verdict.advance .scripts ((LiteralIndex.build R aho technologies).matchChannel name
          .scripts ((LiteralIndex.build R aho technologies).scan .scripts page.inlineScriptText)
          page.inlineScriptText verdict.progress).1)
      (if page.inlineScriptText = "" then []
        else channelTrials tech .scripts page.inlineScriptText) := by
    split
    · exact Advances.refl
    · exact advances_matchChannel htech .scripts page.inlineScriptText
  exact (hhtml.trans (hscripts.unlessVersion hgood)).trans (hinline.unlessVersion hgood)

/-- The literal index finds of a technology what its trials show. -/
theorem checkTechnology_eq (toLowercase : String → String)
    (htech : technologies.lookup name = some tech) (page : PageText) :
    checkTechnology toLowercase (LiteralIndex.build R aho technologies) ∅ page name tech =
      (bodyTrials tech page).foldl (Verdict.absorb (indexResult R aho technologies))
        Verdict.start := by
  have hgood : ∀ verdict : Verdict, verdict.Consistent → (id verdict).Consistent := fun _ h => h
  have hbefore := @advances_beforeMeta R aho _ _ _ htech page
  have hmeta : Advances Verdict.Consistent id (indexResult R aho technologies)
      (fun verdict => verdict.advance .html
        (matchMeta toLowercase (preparedMeta R tech) ∅ verdict.progress)) [] := by
    simp only [matchMeta_empty, Verdict.advance_progress]
    exact Advances.refl
  have hurl := @advances_matchChannel R aho _ _ _ htech .url page.url
  have hall := (hbefore.trans (hmeta.unlessVersion hgood)).trans (hurl.unlessVersion hgood)
  rw [List.append_nil] at hall
  exact hall.verdict Verdict.start Verdict.consistent_start

end Index

/-- The literal index reports for each technology what its trials show. -/
theorem checkBodyWithRuleset_eq (toLowercase : String → String) (aho : AhoCorasick)
    (ruleset : FingerprintRuleset) (page : PageText) :
    checkBodyWithRuleset R toLowercase aho ruleset page ∅ =
      ruleset.technologies.entries.filterMap fun entry =>
        ((bodyTrials entry.2 page).foldl
          (Verdict.absorb (indexResult R aho ruleset.technologies)) Verdict.start).result
            entry.1 := by
  unfold checkBodyWithRuleset
  refine List.filterMap_congr fun entry hentry => ?_
  have htech : ruleset.technologies.lookup entry.1 = some entry.2 :=
    AList.mem_lookup_iff.mpr hentry
  split
  case isTrue hempty =>
    have hnone : bodyTrials entry.2 page = [] := by
      simp only [hasNoBodyPatterns, Bool.and_eq_true, List.isEmpty_iff] at hempty
      simp [bodyTrials, channelTrials, Technology.patterns, hempty]
    rw [hnone]
    rfl
  case isFalse => rw [checkTechnology_eq toLowercase htech]

/-! ## What the trials amount to -/

section Verdicts

variable (result : BodyTrial → PatternMatchResult)

/-- The version that a trial captures. -/
def trialVersion (trial : BodyTrial) : Option String :=
  if (result trial).matched then (result trial).version else none

/-- The first match gives the source and the first captured version the version. -/
theorem foldl_absorb (trials : List BodyTrial) (verdict : Verdict) :
    trials.foldl (Verdict.absorb result) verdict =
      { matched := verdict.matched || trials.any fun trial => (result trial).matched
        version := verdict.version.or (trials.findSome? (trialVersion result))
        source := verdict.source.or
          ((trials.find? fun trial => (result trial).matched).map fun trial =>
            trial.kind.source) } := by
  induction trials generalizing verdict with
  | nil => simp
  | cons trial rest ih =>
      rw [List.foldl_cons, ih]
      by_cases hmatched : (result trial).matched
      · cases hversion : (result trial).version <;>
          simp [Verdict.absorb, hmatched, trialVersion, hversion]
      · simp [Verdict.absorb, hmatched, trialVersion]

/-- The finding of a technology, from its trials. -/
theorem result_foldl_absorb (trials : List BodyTrial) (name : String) :
    (trials.foldl (Verdict.absorb result) Verdict.start).result name =
      (trials.find? fun trial => (result trial).matched).map fun first =>
        { techName := name, version := trials.findSome? (trialVersion result),
          source := first.kind.source } := by
  rw [foldl_absorb]
  cases hfind : trials.find? fun trial => (result trial).matched with
  | none =>
      have hnone : (trials.any fun trial => (result trial).matched) = false :=
        List.any_eq_false.mpr (List.find?_eq_none.mp hfind)
      simp [Verdict.result, Verdict.start, hnone]
  | some first =>
      have hany : (trials.any fun trial => (result trial).matched) = true :=
        List.any_eq_true.mpr
          ⟨first, List.mem_of_find?_eq_some hfind, by simpa using List.find?_some hfind⟩
      simp [Verdict.result, Verdict.start, hany]

variable {result}

/-- Without a match there is no version. -/
theorem findSome?_trialVersion_of_none {trials : List BodyTrial}
    (hfind : (trials.find? fun trial => (result trial).matched) = none) :
    trials.findSome? (trialVersion result) = none := by
  rw [List.findSome?_eq_none_iff]
  intro trial htrial
  have hmatched := List.find?_eq_none.mp hfind trial htrial
  simp [trialVersion, hmatched]

/-- Two matchers have the same finding when the first match of both is in one channel and the first
version the same. -/
theorem result_eq_iff {other : BodyTrial → PatternMatchResult} (trials : List BodyTrial)
    (name : String) :
    (trials.foldl (Verdict.absorb result) Verdict.start).result name =
        (trials.foldl (Verdict.absorb other) Verdict.start).result name ↔
      (trials.find? fun trial => (result trial).matched).map BodyTrial.kind =
          (trials.find? fun trial => (other trial).matched).map BodyTrial.kind ∧
        trials.findSome? (trialVersion result) = trials.findSome? (trialVersion other) := by
  rw [result_foldl_absorb, result_foldl_absorb]
  cases hresult : trials.find? fun trial => (result trial).matched with
  | none =>
      cases hother : trials.find? fun trial => (other trial).matched with
      | none =>
          simp [findSome?_trialVersion_of_none hresult, findSome?_trialVersion_of_none hother]
      | some second => simp
  | some first =>
      cases hother : trials.find? fun trial => (other trial).matched with
      | none => simp
      | some second =>
          simp only [Option.map_some, Option.some.injEq, MatchResult.mk.injEq, true_and,
            ChannelKind.source_injective.eq_iff]
          exact and_comm

/-- Two lists of findings, one for each technology at most, have the same members when they agree on
every technology. -/
theorem toFinset_filterMap_eq_iff {entries : List (Sigma fun _ : String => Technology)}
    (hnodup : entries.NodupKeys) {left right : (Sigma fun _ : String => Technology) →
      Option MatchResult}
    (hleft : ∀ entry found, left entry = some found → found.techName = entry.1)
    (hright : ∀ entry found, right entry = some found → found.techName = entry.1) :
    (entries.filterMap left).toFinset = (entries.filterMap right).toFinset ↔
      ∀ entry ∈ entries, left entry = right entry := by
  constructor
  · intro hsets entry hentry
    -- A finding names its technology, and no two entries share a name.
    have hmem : ∀ found, found ∈ entries.filterMap left ↔ found ∈ entries.filterMap right :=
      fun found => by simpa using Finset.ext_iff.mp hsets found
    ext found
    constructor
    · intro hfound
      obtain ⟨source, hsource, hsame⟩ := List.mem_filterMap.mp
        ((hmem found).mp (List.mem_filterMap.mpr ⟨entry, hentry, hfound⟩))
      have hkey : source.1 = entry.1 :=
        (hright source found hsame).symm.trans (hleft entry found hfound)
      rwa [← hnodup.eq_of_fst_eq hsource hentry hkey]
    · intro hfound
      obtain ⟨source, hsource, hsame⟩ := List.mem_filterMap.mp
        ((hmem found).mpr (List.mem_filterMap.mpr ⟨entry, hentry, hfound⟩))
      have hkey : source.1 = entry.1 :=
        (hleft source found hsame).symm.trans (hright entry found hfound)
      rwa [← hnodup.eq_of_fst_eq hsource hentry hkey]
  · intro hentries
    rw [List.filterMap_congr hentries]

/-- A result bears the name of its technology. -/
theorem techName_of_result {verdict : Verdict} {name : String} {found : MatchResult}
    (hfound : verdict.result name = some found) : found.techName = name := by
  unfold Verdict.result at hfound
  split at hfound
  · cases hfound
    rfl
  · cases hfound

end Verdicts

end DomainStatus.Fingerprint
