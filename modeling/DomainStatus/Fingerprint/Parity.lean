import DomainStatus.Fingerprint.Trials

/-!
# The literal index against the plain matcher

The body matcher from before the literal index, after the oracle of
`src/fingerprint/detection/parity.rs`, and when the literal index agrees with it. Read
`check_body_agrees_iff` first: both find the same exactly when the search for needles neither loses
a match that counts nor lets a literal through that does not match.
-/

namespace DomainStatus.Fingerprint

variable {R : RegexCrate} (moka : Moka R)

/-! ## The oracle -/

/-- The oracle keeps a verdict and goes through the shared cache. -/
structure OracleState (R : RegexCrate) where
  cache : RegexCache R
  verdict : Verdict

/-- Matches one raw pattern. -/
def oracleApplyPattern (text : String) (channel : DetectionSource) (state : OracleState R)
    (pattern : String) : OracleState R × Bool :=
  let (result, cache) := matchesPattern moka state.cache pattern text
  if !result.matched then ({ state with cache := cache }, false)
  else
    let version := state.verdict.version.or result.version
    ({ cache := cache
       verdict := { matched := true, version := version,
                    source := state.verdict.source.or (some channel) } }, version.isSome)

/-- Matches the patterns of a channel until there is a version. -/
def oracleApply (patterns : List String) (text : String) (channel : DetectionSource)
    (state : OracleState R) : OracleState R × Bool :=
  Rounds.forUntil (oracleApplyPattern moka text channel) patterns state

/-- Matches one script source. -/
def oracleScriptSource (patterns : List String) (state : OracleState R) (scriptSrc : String) :
    OracleState R × Bool :=
  let (after, captured) := oracleApply moka patterns scriptSrc .scriptSrc state
  if captured then (after, true)
  -- The source was set together with the match, so this check never finds it missing.
  else if after.verdict.matched && !state.verdict.matched && after.verdict.source.isNone then
    ({ after with verdict := { after.verdict with source := some .scriptSrc } }, false)
  else (after, false)

/-- What the oracle finds of one technology. -/
def oracleTechnology (page : PageText) (tech : Technology) (cache : RegexCache R) :
    OracleState R :=
  let state := (oracleApply moka tech.html page.htmlBody .html
    { cache := cache, verdict := Verdict.start }).1
  let state := unlessVersion (fun state : OracleState R => state.verdict.version)
    (fun state =>
      (Rounds.forUntil (oracleScriptSource moka tech.script) page.scriptSources state).1)
    state
  let state := unlessVersion (fun state : OracleState R => state.verdict.version)
    (fun state =>
      if page.inlineScriptText = "" then state
      else (oracleApply moka tech.scripts page.inlineScriptText .scripts state).1)
    state
  unlessVersion (fun state : OracleState R => state.verdict.version)
    (fun state => (oracleApply moka tech.url page.url .url state).1) state

/-- The findings of the oracle, and the cache it leaves. -/
def oracleFrom (page : PageText) :
    List (Sigma fun _ : String => Technology) → RegexCache R → List MatchResult × RegexCache R
  | [], cache => ([], cache)
  | ⟨name, tech⟩ :: rest, cache =>
      if tech.html.isEmpty && tech.script.isEmpty && tech.scripts.isEmpty && tech.url.isEmpty then
        oracleFrom page rest cache
      else
        let state := oracleTechnology moka page tech cache
        let (found, cache) := oracleFrom page rest state.cache
        ((state.verdict.result name).toList ++ found, cache)

/-- The body matcher from before the literal index. -/
def oracle (cache : RegexCache R) (ruleset : FingerprintRuleset) (page : PageText) :
    List MatchResult :=
  (oracleFrom moka page ruleset.technologies.entries cache).1

/-- The cache after earlier calls of `matchesPattern` in the same process. -/
def cacheAfter (earlier : List (String × String)) : RegexCache R :=
  earlier.foldl (fun cache call => (matchesPattern moka cache call.1 call.2).2) ∅

/-- The cache after earlier calls holds only what its keys compile to. -/
theorem cacheCoherent_cacheAfter (earlier : List (String × String)) :
    CacheCoherent (cacheAfter moka earlier) := by
  suffices h : ∀ cache : RegexCache R, CacheCoherent cache → CacheCoherent
      (earlier.foldl (fun cache call => (matchesPattern moka cache call.1 call.2).2) cache) from
    h ∅ cacheCoherent_empty
  induction earlier with
  | nil => exact fun cache hcache => hcache
  | cons call rest ih => exact fun cache hcache => ih _ (matchesPattern_eq hcache _ _).2

/-! ## The oracle, trial by trial -/

section Oracle

variable {moka}

/-- The result of a trial by `matchesPattern`. -/
def oracleResult (R : RegexCrate) (trial : BodyTrial) : PatternMatchResult :=
  patternResult R trial.pattern trial.text

/-- The cache is coherent and the verdict consistent. -/
structure OracleState.Good (state : OracleState R) : Prop where
  cache : CacheCoherent state.cache
  verdict : state.verdict.Consistent

/-- One pattern of the oracle takes one trial in. -/
theorem advances_oracleApplyPattern (kind : ChannelKind) (text pattern : String) :
    Advances OracleState.Good OracleState.verdict (oracleResult R)
      (fun state => (oracleApplyPattern moka text kind.source state pattern).1)
      [⟨kind, pattern, text⟩] := by
  have hverdict : ∀ state : OracleState R, state.Good →
      (oracleApplyPattern moka text kind.source state pattern).1.verdict =
        state.verdict.absorb (oracleResult R) ⟨kind, pattern, text⟩ ∧
      CacheCoherent (oracleApplyPattern moka text kind.source state pattern).1.cache := by
    intro state hstate
    obtain ⟨hresult, hcache⟩ := @matchesPattern_eq R moka _ hstate.cache pattern text
    unfold oracleApplyPattern Verdict.absorb oracleResult
    rw [← hresult]
    cases hmatched : (matchesPattern moka state.cache pattern text).1.matched <;>
      simp [hmatched, hcache]
  exact ⟨fun state h => ⟨(hverdict state h).2, (hverdict state h).1 ▸ h.verdict.absorb _⟩,
    fun state h => (hverdict state h).1⟩

/-- The oracle stops only at a pattern with a version. -/
theorem oracleApplyPattern_captured {text : String} {channel : DetectionSource}
    {state : OracleState R} {pattern : String}
    (hstop : (oracleApplyPattern moka text channel state pattern).2) :
    (oracleApplyPattern moka text channel state pattern).1.verdict.version.isSome := by
  unfold oracleApplyPattern at hstop ⊢
  dsimp only at hstop ⊢
  split
  case isTrue hmatched => simp [hmatched] at hstop
  case isFalse hmatched => simpa [hmatched] using hstop

/-- The trials of a channel, pattern by pattern. -/
theorem flatMap_trials (tech : Technology) (kind : ChannelKind) (text : String) :
    (tech.patterns kind).flatMap (fun pattern => [(⟨kind, pattern, text⟩ : BodyTrial)]) =
      channelTrials tech kind text := by
  rw [channelTrials, List.map_eq_flatMap]

/-- A channel of the oracle takes its trials in. -/
theorem advances_oracleApply (tech : Technology) (kind : ChannelKind) (text : String) :
    Advances OracleState.Good OracleState.verdict (oracleResult R)
      (fun state => (oracleApply moka (tech.patterns kind) text kind.source state).1)
      (channelTrials tech kind text) := by
  rw [← flatMap_trials]
  exact Advances.forUntil (fun _ h => h.verdict) (advances_oracleApplyPattern kind text)
    (fun _ _ _ hstop => oracleApplyPattern_captured hstop) (tech.patterns kind)

/-- The source of a script match is there already when the oracle checks for it. -/
theorem oracleScriptSource_eq (tech : Technology) (scriptSrc : String) {state : OracleState R}
    (hstate : state.Good) :
    oracleScriptSource moka tech.script state scriptSrc =
      oracleApply moka tech.script scriptSrc .scriptSrc state := by
  have hafter : (oracleApply moka tech.script scriptSrc .scriptSrc state).1.Good :=
    (@advances_oracleApply R moka tech .script scriptSrc).keeps state hstate
  unfold oracleScriptSource
  cases hrun : oracleApply moka tech.script scriptSrc .scriptSrc state with
  | mk after captured =>
      have hsource : after.verdict.source.isSome = after.verdict.matched := by
        simpa [hrun] using hafter.verdict.source
      cases captured with
      | true => rfl
      | false =>
          have hknown : (after.verdict.matched && !state.verdict.matched &&
              after.verdict.source.isNone) = false := by
            rw [← hsource]
            cases after.verdict.source <;> simp
          simp [hknown]

/-- The script sources of the oracle take all their trials in. -/
theorem advances_oracleScriptSources (tech : Technology) (scriptSources : List String) :
    Advances OracleState.Good OracleState.verdict (oracleResult R)
      (fun state => (Rounds.forUntil (oracleScriptSource moka tech.script) scriptSources state).1)
      (scriptSources.flatMap (channelTrials tech .script)) := by
  refine Advances.forUntil (fun _ h => h.verdict) (fun scriptSrc => ?_) ?_ scriptSources
  · have hchannel := @advances_oracleApply R moka tech .script scriptSrc
    constructor
    · intro state hstate
      rw [oracleScriptSource_eq tech scriptSrc hstate]
      exact hchannel.keeps state hstate
    · intro state hstate
      rw [oracleScriptSource_eq tech scriptSrc hstate]
      exact hchannel.verdict state hstate
  · intro state scriptSrc hstate
    rw [oracleScriptSource_eq tech scriptSrc hstate]
    exact @Rounds.forUntil_left _ _ _ (fun state : OracleState R => state.verdict.version.isSome)
      (fun _ _ hstop => oracleApplyPattern_captured hstop) _ _

/-- The oracle finds of a technology what its trials show. -/
theorem oracleTechnology_eq (page : PageText) (tech : Technology) {cache : RegexCache R}
    (hcache : CacheCoherent cache) :
    CacheCoherent (oracleTechnology moka page tech cache).cache ∧
      (oracleTechnology moka page tech cache).verdict =
        (bodyTrials tech page).foldl (Verdict.absorb (oracleResult R)) Verdict.start := by
  have hgood : ∀ state : OracleState R, state.Good → state.verdict.Consistent :=
    fun _ h => h.verdict
  have hhtml := @advances_oracleApply R moka tech .html page.htmlBody
  have hscripts := @advances_oracleScriptSources R moka tech page.scriptSources
  have hinline : Advances OracleState.Good OracleState.verdict (oracleResult R)
      (fun state =>
        if page.inlineScriptText = "" then state
        else (oracleApply moka tech.scripts page.inlineScriptText .scripts state).1)
      (if page.inlineScriptText = "" then []
        else channelTrials tech .scripts page.inlineScriptText) := by
    split
    · exact Advances.refl
    · exact advances_oracleApply tech .scripts page.inlineScriptText
  have hurl := @advances_oracleApply R moka tech .url page.url
  have hall := ((hhtml.trans (hscripts.unlessVersion hgood)).trans
    (hinline.unlessVersion hgood)).trans (hurl.unlessVersion hgood)
  have hstart : OracleState.Good { cache := cache, verdict := Verdict.start } :=
    ⟨hcache, Verdict.consistent_start⟩
  exact ⟨(hall.keeps _ hstart).cache, hall.verdict _ hstart⟩

/-- The oracle reports for each technology what its trials show. -/
theorem oracleFrom_eq (page : PageText) (entries : List (Sigma fun _ : String => Technology))
    {cache : RegexCache R} (hcache : CacheCoherent cache) :
    (oracleFrom moka page entries cache).1 = entries.filterMap fun entry =>
      ((bodyTrials entry.2 page).foldl (Verdict.absorb (oracleResult R)) Verdict.start).result
        entry.1 := by
  induction entries generalizing cache with
  | nil => rfl
  | cons entry rest ih =>
      obtain ⟨name, tech⟩ := entry
      obtain ⟨hafter, hverdict⟩ := @oracleTechnology_eq R moka page tech cache hcache
      rw [List.filterMap_cons, oracleFrom]
      split
      case isTrue hempty =>
        have hnone : bodyTrials tech page = [] := by
          simp only [Bool.and_eq_true, List.isEmpty_iff] at hempty
          simp [bodyTrials, channelTrials, Technology.patterns, hempty]
        rw [ih hcache, hnone]
        rfl
      case isFalse =>
        simp only [ih hafter, hverdict]
        cases ((bodyTrials tech page).foldl (Verdict.absorb (oracleResult R))
          Verdict.start).result name <;> rfl

end Oracle

/-! ## When both agree -/

section Agreement

variable (aho : AhoCorasick) (technologies : HashMap String Technology)

/-- `matchesPattern` accepts the trial. -/
def BodyTrial.accepted (trial : BodyTrial) : Bool :=
  (matchesPattern moka ∅ trial.pattern trial.text).1.matched

/-- The version that `matchesPattern` captures. -/
def BodyTrial.captured (trial : BodyTrial) : Option String :=
  (matchesPattern moka ∅ trial.pattern trial.text).1.version

/-- The search through the text for the needles of the channel reports the needle. -/
def BodyTrial.reports (R : RegexCrate) (trial : BodyTrial) (needle : String) : Bool :=
  reported aho (channelNeedles R technologies trial.kind) trial.text needle

/-- The pattern matches, but the search does not report the needle that its step waits for. -/
def BodyTrial.lost (trial : BodyTrial) : Bool :=
  trial.accepted moka &&
    match planStep trial.pattern with
    | .literal needle => !trial.reports aho technologies R needle
    | .regex (some lead) =>
        (channelNeedles R technologies trial.kind).contains lead &&
          !trial.reports aho technologies R lead
    | _ => false

/-- The pattern is a literal whose needle the search reports, but it does not match. -/
def BodyTrial.phantom (trial : BodyTrial) : Bool :=
  !trial.accepted moka &&
    match planStep trial.pattern with
    | .literal needle => trial.reports aho technologies R needle
    | _ => false

/-- The search for needles changes nothing about the technology: the first trial that matches is in
the channel of the first one that is let through, and the first version is not lost. -/
structure SearchHarmless (tech : Technology) (page : PageText) : Prop where
  channel :
    ((bodyTrials tech page).find? fun trial =>
        trial.accepted moka && !trial.lost moka aho technologies ||
          trial.phantom moka aho technologies).map BodyTrial.kind =
      ((bodyTrials tech page).find? fun trial => trial.accepted moka).map BodyTrial.kind
  version :
    ((bodyTrials tech page).findSome? fun trial =>
        if trial.lost moka aho technologies then none else trial.captured moka) =
      (bodyTrials tech page).findSome? fun trial => trial.captured moka

variable {aho technologies}

/-- A trial is accepted if the oracle matches. -/
theorem accepted_eq (trial : BodyTrial) :
    trial.accepted moka = (oracleResult R trial).matched := by
  rw [BodyTrial.accepted, (matchesPattern_eq cacheCoherent_empty _ _).1, oracleResult]

/-- The captured version is that of the oracle. -/
theorem captured_eq (trial : BodyTrial) :
    trial.captured moka = trialVersion (oracleResult R) trial := by
  rw [BodyTrial.captured, (matchesPattern_eq cacheCoherent_empty _ _).1, trialVersion]
  split
  case isTrue => rfl
  case isFalse hmatched =>
    exact version_patternResult_of_not_matched (Bool.eq_false_of_not_eq_true hmatched)

/-- What the literal index makes of a trial: a lost trial is no match, a phantom is one without a
version, and every other trial is what `matchesPattern` says. -/
theorem indexResult_cases (trial : BodyTrial) :
    indexResult R aho technologies trial =
      if trial.lost moka aho technologies then .noMatch
      else if trial.phantom moka aho technologies then { matched := true, version := none }
      else oracleResult R trial := by
  have haccepted := accepted_eq moka trial
  unfold indexResult gatedResult BodyTrial.lost BodyTrial.phantom BodyTrial.reports
  rw [haccepted]
  cases hplan : planStep trial.pattern with
  | dropped => simp [oracleResult]
  | any versionTemplate => simp [oracleResult]
  | literal needle =>
      have hversion := version_patternResult_of_literal (R := R) hplan trial.text
      by_cases hmatched : (oracleResult R trial).matched
      · have hresult : oracleResult R trial = { matched := true, version := none } :=
          PatternMatchResult.ext hmatched hversion
        by_cases hreported :
            reported aho (channelNeedles R technologies trial.kind) trial.text needle
        · simp [hresult, hreported]
        · simp [hresult, hreported]
      · have hresult : oracleResult R trial = .noMatch :=
          PatternMatchResult.ext (Bool.eq_false_of_not_eq_true hmatched) hversion
        simp [hresult, PatternMatchResult.noMatch]
  | regex lead =>
      cases lead with
      | none => simp [oracleResult]
      | some lead =>
          by_cases hmatched : (oracleResult R trial).matched
          · have hresult : (patternResult R trial.pattern trial.text).matched = true := hmatched
            simp [oracleResult, hresult]
          · have hunmatched := Bool.eq_false_of_not_eq_true hmatched
            have hresult : patternResult R trial.pattern trial.text = .noMatch :=
              PatternMatchResult.ext hunmatched (version_patternResult_of_not_matched hunmatched)
            simp [oracleResult, hresult, PatternMatchResult.noMatch]

/-- A lost trial is not accepted by mistake and a phantom is not accepted at all. -/
theorem accepted_of_lost {trial : BodyTrial} (hlost : trial.lost moka aho technologies) :
    trial.accepted moka := by
  unfold BodyTrial.lost at hlost
  exact (Bool.and_eq_true_iff.mp hlost).1

/-- A phantom is not accepted. -/
theorem not_accepted_of_phantom {trial : BodyTrial}
    (hphantom : trial.phantom moka aho technologies) : trial.accepted moka = false := by
  unfold BodyTrial.phantom at hphantom
  simpa using (Bool.and_eq_true_iff.mp hphantom).1

/-- The index matches the accepted trials that are not lost, and the phantoms. -/
theorem indexResult_matched (trial : BodyTrial) :
    (indexResult R aho technologies trial).matched =
      (trial.accepted moka && !trial.lost moka aho technologies ||
        trial.phantom moka aho technologies) := by
  rw [indexResult_cases moka]
  by_cases hlost : trial.lost moka aho technologies
  · have hphantom : trial.phantom moka aho technologies = false := by
      by_contra h
      have := not_accepted_of_phantom moka (Bool.eq_true_of_not_eq_false h)
      simp [accepted_of_lost moka hlost] at this
    simp [hlost, hphantom, PatternMatchResult.noMatch]
  · by_cases hphantom : trial.phantom moka aho technologies
    · simp [hlost, hphantom]
    · simp [hlost, hphantom, accepted_eq]

/-- The index gives the captured version of a trial that is not lost. -/
theorem trialVersion_indexResult (trial : BodyTrial) :
    trialVersion (indexResult R aho technologies) trial =
      if trial.lost moka aho technologies then none else trial.captured moka := by
  rw [trialVersion, indexResult_cases moka]
  by_cases hlost : trial.lost moka aho technologies
  · simp [hlost, PatternMatchResult.noMatch]
  · by_cases hphantom : trial.phantom moka aho technologies
    · have hunmatched := (accepted_eq moka trial).symm.trans
        (not_accepted_of_phantom moka hphantom)
      simp [hlost, hphantom, captured_eq, trialVersion, hunmatched]
    · simp [hlost, hphantom, captured_eq, trialVersion]

/-- The literal index and the plain matcher find the same technologies, with the same versions and
sources, exactly when the search for needles is harmless for every technology. -/
theorem check_body_agrees_iff (moka : Moka R) (aho : AhoCorasick) (toLowercase : String → String)
    (earlier : List (String × String)) (ruleset : FingerprintRuleset) (page : PageText) :
    (checkBodyWithRuleset R toLowercase aho ruleset page ∅).toFinset =
        (oracle moka (cacheAfter moka earlier) ruleset page).toFinset ↔
      ∀ name tech, ruleset.technologies.lookup name = some tech →
        SearchHarmless moka aho ruleset.technologies tech page := by
  rw [checkBodyWithRuleset_eq, oracle, oracleFrom_eq _ _ (cacheCoherent_cacheAfter moka earlier),
    toFinset_filterMap_eq_iff ruleset.technologies.nodupKeys
      (fun _ _ h => techName_of_result h) (fun _ _ h => techName_of_result h)]
  -- Both sides are folds over the same trials, so only the results of the trials are compared.
  have hcaptured : trialVersion (oracleResult R) = fun trial => trial.captured moka :=
    funext fun trial => (captured_eq moka trial).symm
  have hindex : trialVersion (indexResult R aho ruleset.technologies) = fun trial =>
      if trial.lost moka aho ruleset.technologies then none else trial.captured moka :=
    funext (trialVersion_indexResult moka)
  simp only [result_eq_iff, ← accepted_eq moka, indexResult_matched moka, hcaptured, hindex]
  constructor
  · intro hentries name tech htech
    obtain ⟨hchannel, hversion⟩ := hentries ⟨name, tech⟩ (AList.mem_lookup_iff.mp htech)
    exact ⟨hchannel, hversion⟩
  · intro hharmless entry hentry
    have htech := hharmless entry.1 entry.2 (AList.mem_lookup_iff.mpr hentry)
    exact ⟨htech.channel, htech.version⟩

end Agreement

/-- The first place where the needle occurs, without regard to ASCII case. -/
def findLiteral (needle : List Char) (text : String) : Option Captures :=
  (text.toList.tails.find? fun tail => needle.isPrefixOf (tail.map Char.toLower)).map fun tail =>
    [some (String.ofList (tail.take needle.length))]

/-- The regex crate on patterns of ASCII letters and digits and on ASCII texts, where a match is an
occurrence of the pattern. Other patterns are not compiled. -/
def literalCrate : RegexCrate where
  Regex := List Char
  escape text := String.ofList (text.toList.flatMap fun c =>
    if "\\.+*?()|[]\x7b\x7d^$#&-~".toList.contains c then ['\\', c] else [c])
  new source := (Text.stripPrefix source "(?i)").bind fun pattern =>
    if pattern.toList.all Char.isAlphanum then some (pattern.toList.map Char.toLower) else none
  isMatch needle text := (findLiteral needle text).isSome
  captures := findLiteral
  isMatch_eq _ _ := rfl

/-- Two technologies, of which one looks for a part of the other's text. -/
def overlapRuleset : FingerprintRuleset where
  technologies := List.toAList [⟨"Outer", { html := ["abcd"] }⟩, ⟨"Inner", { html := ["bc"] }⟩]

/-- The needle of the second technology ends within the text of the first one. The search reports it
and goes on behind it, so that the first technology is not found although its text is there. -/
theorem check_body_misses_overlapping_needle :
    ¬ ∀ (R : RegexCrate) (moka : Moka R) (aho : AhoCorasick) (toLowercase : String → String)
      (earlier : List (String × String)) (ruleset : FingerprintRuleset) (page : PageText),
      (checkBodyWithRuleset R toLowercase aho ruleset page ∅).toFinset =
        (oracle moka (cacheAfter moka earlier) ruleset page).toFinset := by
  intro h
  have hoverlap := h literalCrate { evict := id, lookup_evict := fun hlookup => hlookup }
    { choose := fun _ ids => ids.headD 0
      choose_mem := fun {_ ids} hids => by cases ids <;> simp_all }
    id [] overlapRuleset
    { htmlBody := "abcd", scriptSources := [], url := "https://example.com/",
      inlineScriptText := "" }
  revert hoverlap
  decide +kernel

end DomainStatus.Fingerprint
