import DomainStatus.Lib.Distinct
import DomainStatus.Lib.Fallible
import DomainStatus.Parse.Secrets

/-!
# What a scan for secrets finds

The loop of `detect_exposed_secrets_inner` in `src/parse/secrets.rs` without its state: all matches
of the rules that apply to a text, of them the first one for each rule and value, and of these the
secrets. Read `detectExposedSecretsInner_eq` first.
-/

namespace DomainStatus.Secrets

open Distinct

variable {R : RegexCrate} (checks : MatchChecks R)

/-- What a secret is reported once for. -/
def findingKey (secret : ExposedSecret) : String × String :=
  (secret.secretType, secret.matchedValue)

/-- A match of a rule that passes all checks. -/
structure RuleMatch where
  ruleId : String
  found : Found
  passed : PlausibleMatch

/-- What a match is reported once for. -/
def RuleMatch.key (shown : RuleMatch) : String × String :=
  (shown.ruleId, shown.passed.matchedValue)

/-- The secret of a match, unless its location cannot be inferred. -/
def RuleMatch.secret (body : String) (shown : RuleMatch) : Option ExposedSecret :=
  exposedSecret checks shown.ruleId body shown.found shown.passed

/-- A match of a rule, when it passes all checks. -/
def ruleMatch (global : CompiledGlobalAllowlist R) (body : String) (rule : CompiledRule R)
    (found : Found) : Option RuleMatch :=
  (plausibleMatch checks global rule body found).map fun passed =>
    { ruleId := rule.id, found, passed }

/-- The matches of a rule that pass all checks. -/
def matchesOf (global : CompiledGlobalAllowlist R) (body : String) (rule : CompiledRule R) :
    List RuleMatch :=
  (checks.capturesIter rule.regex body).filterMap (ruleMatch checks global body rule)

/-- The numbers of the keywords that the search finds in a text. -/
def matchedKeywordIds (config : GitleaksCompiled R) (body : String) (usePrefilter : Bool) :
    Option (List ℕ) :=
  if usePrefilter then config.keywordPrefilter.map fun prefilter => prefilter.matchedPatternIds body
  else none

/-- The rules that are tried on a text. -/
def triedRules (config : GitleaksCompiled R) (body : String) (usePrefilter : Bool) :
    List (CompiledRule R) :=
  config.rules.filter fun rule =>
    rule.path.isNone && !skippedByPrefilter (matchedKeywordIds config body usePrefilter) rule

/-- The first match for each rule and value, where each rule is tried. -/
def firstMatches (global : CompiledGlobalAllowlist R) (body : String)
    (rules : List (CompiledRule R)) : List RuleMatch :=
  unseen RuleMatch.key [] (rules.flatMap (matchesOf checks global body))

/-- The findings of some rules, each of which is tried. There are none when the location of one of
them cannot be inferred. -/
def findingsOf (global : CompiledGlobalAllowlist R) (body : String)
    (rules : List (CompiledRule R)) : Option (List ExposedSecret) :=
  (firstMatches checks global body rules).mapM (RuleMatch.secret checks body)

/-! ## The loop -/

section Loop

variable {checks} {global : CompiledGlobalAllowlist R} {body : String} {rule : CompiledRule R}
  {shown : RuleMatch} {secret : ExposedSecret}

/-- A finding has the key of its match. -/
theorem RuleMatch.findingKey_eq (h : shown.secret checks body = some secret) :
    findingKey secret = shown.key := by
  obtain ⟨location, -, rfl⟩ := Option.map_eq_some_iff.mp h
  rfl

/-- The matches of a rule bear its name. -/
theorem ruleId_of_mem_matchesOf (h : shown ∈ matchesOf checks global body rule) :
    shown.ruleId = rule.id := by
  obtain ⟨found, -, hfound⟩ := List.mem_filterMap.mp h
  obtain ⟨passed, -, rfl⟩ := Option.map_eq_some_iff.mp hfound
  rfl

/-- A first match was found by its rule, and passes all checks. -/
theorem spec_of_mem_firstMatches {rules : List (CompiledRule R)}
    (h : shown ∈ firstMatches checks global body rules) :
    ∃ rule ∈ rules, rule.id = shown.ruleId ∧ shown.found ∈ checks.capturesIter rule.regex body ∧
      plausibleMatch checks global rule body shown.found = some shown.passed := by
  obtain ⟨rule, hrule, hmatch⟩ := List.mem_flatMap.mp (mem_of_mem_unseen _ h)
  obtain ⟨found, hfound, hshown⟩ := List.mem_filterMap.mp hmatch
  obtain ⟨passed, hpassed, rfl⟩ := Option.map_eq_some_iff.mp hshown
  exact ⟨rule, hrule, rfl, hfound, hpassed⟩

/-- The state behind some more matches. -/
def ScanState.report (checks : MatchChecks R) (body : String) (state : ScanState)
    (shown : List RuleMatch) : Option ScanState :=
  ((unseen RuleMatch.key state.seen shown).mapM (RuleMatch.secret checks body)).map fun secrets =>
    { results := state.results ++ secrets
      seen := state.seen ++ (unseen RuleMatch.key state.seen shown).map RuleMatch.key }

/-- No match, no report. -/
theorem ScanState.report_nil (state : ScanState) : state.report checks body [] = some state := by
  simp [ScanState.report, unseen]

/-- Two lists of matches are reported one after the other. -/
theorem ScanState.report_append (state : ScanState) (shown others : List RuleMatch) :
    state.report checks body (shown ++ others) =
      (state.report checks body shown).bind fun next => next.report checks body others := by
  simp only [ScanState.report, unseen_append, List.mapM_append, List.map_append]
  cases (unseen RuleMatch.key state.seen shown).mapM (RuleMatch.secret checks body) with
  | none => rfl
  | some secrets =>
      simp only [Option.bind_eq_bind, Option.bind_some, Option.map_some]
      cases List.mapM (RuleMatch.secret checks body) (unseen RuleMatch.key
          (state.seen ++ (unseen RuleMatch.key state.seen shown).map RuleMatch.key) others) with
      | none => rfl
      | some rest => simp [List.append_assoc]

/-- A match is reported unless its key was seen. -/
theorem ScanState.report_singleton (state : ScanState) (shown : RuleMatch) :
    state.report checks body [shown] =
      if shown.key ∈ state.seen then some state
      else
        (shown.secret checks body).map fun secret =>
          { results := state.results ++ [secret]
            seen := state.seen ++ [shown.key] } := by
  rw [ScanState.report, unseen]
  split_ifs
  · simp [unseen]
  · cases hsecret : shown.secret checks body <;> simp [unseen, hsecret]

/-- One round of the scan reports the match, if it is one. -/
theorem scanMatch_eq (state : ScanState) (found : Found) :
    scanMatch checks global rule body state found =
      state.report checks body (ruleMatch checks global body rule found).toList := by
  unfold scanMatch ruleMatch
  cases plausibleMatch checks global rule body found with
  | none => exact state.report_nil.symm
  | some passed =>
      rw [Option.map_some, Option.toList_some, ScanState.report_singleton]
      rfl

/-- The scan of a rule reports its matches. -/
theorem scanRule_eq (state : ScanState) :
    scanRule checks global body state rule =
      state.report checks body (matchesOf checks global body rule) := by
  unfold scanRule matchesOf
  induction checks.capturesIter rule.regex body generalizing state with
  | nil => exact state.report_nil.symm
  | cons found rest ih =>
      have hsplit : (found :: rest).filterMap (ruleMatch checks global body rule) =
          (ruleMatch checks global body rule found).toList ++
            rest.filterMap (ruleMatch checks global body rule) := by
        rw [List.filterMap_cons]
        cases ruleMatch checks global body rule found <;> rfl
      rw [List.foldlM_cons, scanMatch_eq, hsplit, ScanState.report_append]
      exact congrArg _ (funext fun next => ih next)

/-- A scan has the findings of the rules that it tries. -/
theorem detectExposedSecretsInner_eq (config : GitleaksCompiled R) (body : String)
    (usePrefilter : Bool) :
    detectExposedSecretsInner checks config body usePrefilter =
      findingsOf checks config.globalAllowlist body (triedRules config body usePrefilter) := by
  have hloop : ∀ (rules : List (CompiledRule R)) (state : ScanState),
      rules.foldlM (fun (state : ScanState) (rule : CompiledRule R) =>
        if rule.path.isSome then some state
        else if skippedByPrefilter (matchedKeywordIds config body usePrefilter) rule then some state
        else scanRule checks config.globalAllowlist body state rule) state =
      state.report checks body ((rules.filter fun rule => rule.path.isNone &&
        !skippedByPrefilter (matchedKeywordIds config body usePrefilter) rule).flatMap
          (matchesOf checks config.globalAllowlist body)) := by
    intro rules
    induction rules with
    | nil => exact fun state => state.report_nil.symm
    | cons rule rest ih =>
        intro state
        rw [List.foldlM_cons, List.filter_cons]
        cases hpath : rule.path with
        | some path => exact ih state
        | none =>
            cases skippedByPrefilter (matchedKeywordIds config body usePrefilter) rule with
            | true => exact ih state
            | false =>
                show (scanRule checks config.globalAllowlist body state rule).bind _ =
                  state.report checks body ((rule :: rest.filter _).flatMap _)
                rw [scanRule_eq, List.flatMap_cons, ScanState.report_append]
                exact congrArg _ (funext fun next => ih next)
  have hresults := congrArg (Option.map ScanState.results) (hloop config.rules {})
  refine hresults.trans ?_
  rw [ScanState.report, Option.map_map]
  show Option.map (fun secrets => [] ++ secrets) _ = _
  simp only [List.nil_append]
  exact Option.map_id'

/-! ## Findings of one kind -/

/-- The first matches of a rule are those of the rules with its name. -/
theorem filter_firstMatches (rules : List (CompiledRule R)) (id : String) :
    (firstMatches checks global body rules).filter (·.ruleId = id) =
      firstMatches checks global body (rules.filter (·.id = id)) := by
  have hkept := filter_unseen RuleMatch.key (fun key => decide (key.1 = id)) []
    (rules.flatMap (matchesOf checks global body))
  refine hkept.trans (congrArg (unseen RuleMatch.key []) ?_)
  clear hkept
  induction rules with
  | nil => rfl
  | cons rule rest ih =>
      rw [List.flatMap_cons, List.filter_append, ih, List.filter_cons]
      by_cases hid : rule.id = id
      · have hall : (matchesOf checks global body rule).filter
            (fun shown => decide (shown.key.1 = id)) = matchesOf checks global body rule :=
          List.filter_eq_self.mpr fun shown hshown =>
            decide_eq_true ((ruleId_of_mem_matchesOf hshown).trans hid)
        rw [if_pos (decide_eq_true hid), List.flatMap_cons, hall]
      · have hnone : (matchesOf checks global body rule).filter
            (fun shown => decide (shown.key.1 = id)) = [] :=
          List.filter_eq_nil_iff.mpr fun shown hshown h =>
            hid ((ruleId_of_mem_matchesOf hshown).symm.trans (of_decide_eq_true h))
        rw [if_neg (by simpa using hid), hnone, List.nil_append]

/-- The findings of a type are those of the rules with its name. -/
theorem filter_findingsOf {rules : List (CompiledRule R)} {secrets : List ExposedSecret}
    (h : findingsOf checks global body rules = some secrets) (id : String) :
    findingsOf checks global body (rules.filter (·.id = id)) =
      some (secrets.filter (·.secretType = id)) := by
  rw [findingsOf, ← filter_firstMatches]
  refine List.mapM_filter h fun shown secret hsecret => ?_
  rw [show secret.secretType = shown.ruleId from
    congrArg Prod.fst (RuleMatch.findingKey_eq hsecret)]

/-- The findings of some rules are lost when those of one name are. -/
theorem findingsOf_eq_none_iff {rules : List (CompiledRule R)} :
    findingsOf checks global body rules = none ↔
      ∃ id, findingsOf checks global body (rules.filter (·.id = id)) = none := by
  simp only [findingsOf, List.mapM_eq_none_iff, ← filter_firstMatches, List.mem_filter,
    decide_eq_true_eq]
  constructor
  · rintro ⟨shown, hshown, hnone⟩
    exact ⟨shown.ruleId, shown, ⟨hshown, rfl⟩, hnone⟩
  · rintro ⟨id, shown, ⟨hshown, -⟩, hnone⟩
    exact ⟨shown, hshown, hnone⟩

section Secrets

variable {rules : List (CompiledRule R)} {secrets : List ExposedSecret}

/-- The keys of the findings are those of the first matches. -/
theorem keys_findingsOf (h : findingsOf checks global body rules = some secrets) :
    secrets.map findingKey = (firstMatches checks global body rules).map RuleMatch.key :=
  ((List.mapM_eq_some_iff.mp h).map_eq fun _ _ hsecret =>
    (RuleMatch.findingKey_eq hsecret).symm).symm

/-- Each rule and value has one finding. -/
theorem nodup_findingsOf (h : findingsOf checks global body rules = some secrets) :
    (secrets.map findingKey).Nodup := by
  rw [keys_findingsOf h]
  exact (nodup_unseen RuleMatch.key [] _).1

/-- The keys of the findings are those of the matches. -/
theorem mem_keys_findingsOf (h : findingsOf checks global body rules = some secrets)
    {key : String × String} :
    key ∈ secrets.map findingKey ↔
      ∃ rule ∈ rules, ∃ shown ∈ matchesOf checks global body rule, shown.key = key := by
  have hkeys := map_unseen RuleMatch.key [] (rules.flatMap (matchesOf checks global body))
  rw [List.eraseDups_nil, List.nil_append, List.nil_append] at hkeys
  rw [keys_findingsOf h, firstMatches, hkeys, List.mem_eraseDups, List.mem_map]
  constructor
  · rintro ⟨shown, hshown, hkey⟩
    obtain ⟨rule, hrule, hmatch⟩ := List.mem_flatMap.mp hshown
    exact ⟨rule, hrule, shown, hmatch, hkey⟩
  · rintro ⟨rule, hrule, shown, hmatch, hkey⟩
    exact ⟨shown, List.mem_flatMap.mpr ⟨rule, hrule, hmatch⟩, hkey⟩

end Secrets

end Loop

end DomainStatus.Secrets
