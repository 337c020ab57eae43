import DomainStatus.Lib.Keyed
import DomainStatus.Lib.Lowercase
import DomainStatus.Parse.Allowlists
import DomainStatus.Parse.Findings
import DomainStatus.Parse.HeaderSecrets

/-!
# The rules and their overrides

How the rules of `gitleaks.toml` and those of `gitleaks.overrides.toml` become the rules of a scan,
after `load_compiled` and `merge_overrides_into_rules` of `src/parse/gitleaks.rs`. The files are
taken as the parsed values, with the rules as an array. Read `ofKey_mergeOverrides` first: what the
rules with a name are. From it follow the findings of each rule.
-/

namespace DomainStatus.Secrets

open Distinct Keyed

variable (R : RegexCrate) (properties : Text.CaseProperties)

/-- The ending of an expression that only knows some characters behind a secret. -/
def upstreamTrailingBoundary : String :=
  "(?:[\\x60'\"\\s;]|\\\\[nr]|$)"

/-- What may stand behind a secret on a web page. -/
def relaxedTrailingBoundary : String :=
  "(?:[\\x60'\"\\s;&,)\\]\x7d></?#]|\\\\[nr]|$)"

/-- Lets more characters stand behind a secret than the upstream rules do. -/
def relaxTrailingBoundary (pattern : String) : String :=
  String.ofList (Text.replace pattern.toList upstreamTrailingBoundary.toList
    relaxedTrailingBoundary.toList)

/-- The allowlist of all rules as it is declared. -/
structure AllowlistRaw where
  regexes : Option (List String) := none
  stopwords : Option (List String) := none

/-- A rule as it is declared. -/
structure RuleRaw where
  id : String
  regex : Option String := none
  entropy : Option ℚ := none
  keywords : Option (List String) := none
  secretGroup : Option ℕ := none
  path : Option String := none
  allowlists : Option (List RuleAllowlistRaw) := none

/-- An allowlist for a rule that is declared elsewhere. -/
structure AppendOverride where
  ruleId : String
  regexTarget : Option String := none
  paths : Option (List String) := none
  regexes : Option (List String) := none
  stopwords : Option (List String) := none
  condition : Option String := none

/-- The file with the overrides: rules, and allowlists to append to rules. -/
structure OverridesFile where
  append : Option (List AppendOverride) := none
  rules : Option (List RuleRaw) := none

/-- The allowlist for all rules with its regexes compiled. -/
def compileGlobalAllowlist (raw : Option AllowlistRaw) : CompiledGlobalAllowlist R where
  regexes := compileAllowlistRegexes R (raw.getD {}).regexes
  stopwords := (raw.getD {}).stopwords.getD []

/-- A rule with its compiled expression. The keywords are numbered later. -/
def compiledRule (raw : RuleRaw) (regex : R.Regex) : CompiledRule R where
  id := raw.id
  regex := regex
  entropy := raw.entropy
  keywords := raw.keywords.map fun keywords => keywords.map fun keyword =>
    String.ofList (Text.toLowercase properties keyword.toList)
  keywordPatternIds := none
  secretGroup := raw.secretGroup
  allowlists := (raw.allowlists.getD []).map (compileRuleAllowlist R)
  path := raw.path

/-- A rule of `gitleaks.toml`, when its expression compiles. The parameter is the builder of the
crate with the limit on the size of an expression. -/
def loadRule (build : String → Option R.Regex) (raw : RuleRaw) : Option (CompiledRule R) :=
  (raw.regex.bind fun regex => build (relaxTrailingBoundary regex)).map
    (compiledRule R properties raw)

/-- A rule of the overrides, when its expression compiles. -/
def overrideRule (raw : RuleRaw) : Option (CompiledRule R) :=
  (raw.regex.bind R.new).map (compiledRule R properties raw)

/-- One rule of the overrides takes the place of the first rule with its name. -/
def replaceRule (rules : List (CompiledRule R)) (raw : RuleRaw) : List (CompiledRule R) :=
  match overrideRule R properties raw with
  | none => rules
  | some compiled =>
      match rules.findIdx? (·.id = raw.id) with
      | some index => rules.set index compiled
      | none => rules ++ [compiled]

/-- The allowlist of an override. -/
def AppendOverride.compiled (append : AppendOverride) : CompiledRuleAllowlist R :=
  compileRuleAllowlist R
    { paths := append.paths
      regexes := append.regexes
      stopwords := append.stopwords
      regexTarget := append.regexTarget
      condition := append.condition }

/-- The rule with one more allowlist. -/
def CompiledRule.allow {R : RegexCrate} (rule : CompiledRule R) (list : CompiledRuleAllowlist R) :
    CompiledRule R :=
  { rule with allowlists := rule.allowlists ++ [list] }

/-- One allowlist of the overrides goes to the first rule with its name. -/
def appendAllowlist (rules : List (CompiledRule R)) (append : AppendOverride) :
    List (CompiledRule R) :=
  match rules.findIdx? (·.id = append.ruleId) with
  | some index => rules.modify index (·.allow (append.compiled R))
  | none => rules

/-- First the rules of the overrides, then their allowlists. A file that cannot be read changes
nothing. -/
def mergeOverridesIntoRules (rules : List (CompiledRule R)) (overrides : Option OverridesFile) :
    List (CompiledRule R) :=
  match overrides with
  | none => rules
  | some file =>
      (file.append.getD []).foldl (appendAllowlist R)
        ((file.rules.getD []).foldl (replaceRule R properties) rules)

/-- The rules of a scan. Without any valid rule there are none. -/
def loadCompiled (build : String → Option R.Regex) (builds : List String → Bool)
    (allowlist : Option AllowlistRaw) (raw : List RuleRaw) (overrides : Option OverridesFile) :
    Option (GitleaksCompiled R) :=
  let rules := raw.filterMap (loadRule R properties build)
  if rules.isEmpty then none
  else
    let merged := mergeOverridesIntoRules R properties rules overrides
    let (keywordPrefilter, rules) := buildKeywordPrefilter builds merged
    some { globalAllowlist := compileGlobalAllowlist R allowlist, rules, keywordPrefilter }

/-! ## The rules with a name -/

/-- The last rule of the overrides with a name that compiles. -/
def replacement (file : OverridesFile) (id : String) : Option (CompiledRule R) :=
  (ofKey CompiledRule.id id ((file.rules.getD []).filterMap (overrideRule R properties))).getLast?

/-- The allowlists of the overrides for a rule. -/
def appendedAllowlists (file : OverridesFile) (id : String) : List (CompiledRuleAllowlist R) :=
  ((file.append.getD []).filter (·.ruleId = id)).map (AppendOverride.compiled R)

/-- The rule with some more allowlists. -/
def CompiledRule.allowAll {R : RegexCrate} (rule : CompiledRule R)
    (lists : List (CompiledRuleAllowlist R)) : CompiledRule R :=
  { rule with allowlists := rule.allowlists ++ lists }

/-- The rules with a name: the last one of the overrides in the place of the first one that there
is, with the allowlists of the overrides for it. -/
def effectiveRules (file : OverridesFile) (id : String) (rules : List (CompiledRule R)) :
    List (CompiledRule R) :=
  (match replacement R properties file id with
    | none => ofKey CompiledRule.id id rules
    | some rule => rule :: (ofKey CompiledRule.id id rules).tail).modifyHead
      (·.allowAll (appendedAllowlists R file id))

variable {R properties}

/-- A rule that replaces another keeps its name. -/
theorem id_overrideRule {raw : RuleRaw} {compiled : CompiledRule R}
    (h : overrideRule R properties raw = some compiled) : compiled.id = raw.id := by
  obtain ⟨regex, -, rfl⟩ := Option.map_eq_some_iff.mp h
  rfl

/-- A rule is put where one of its name is. -/
theorem replaceRule_eq (rules : List (CompiledRule R)) (raw : RuleRaw) :
    replaceRule R properties rules raw =
      (overrideRule R properties raw).toList.foldl (put CompiledRule.id) rules := by
  unfold replaceRule
  cases hraw : overrideRule R properties raw with
  | none => rfl
  | some compiled =>
      obtain ⟨regex, -, rfl⟩ := Option.map_eq_some_iff.mp hraw
      rfl

/-- The rules that replace others are put one after the other. -/
theorem foldl_replaceRule (raws : List RuleRaw) (rules : List (CompiledRule R)) :
    raws.foldl (replaceRule R properties) rules =
      (raws.filterMap (overrideRule R properties)).foldl (put CompiledRule.id) rules := by
  induction raws generalizing rules with
  | nil => rfl
  | cons raw rest ih =>
      rw [List.foldl_cons, ih, replaceRule_eq, List.filterMap_cons]
      cases overrideRule R properties raw <;> rfl

/-- An allowlist is appended to the first rule of its name. -/
theorem appendAllowlist_eq (rules : List (CompiledRule R)) (append : AppendOverride) :
    appendAllowlist R rules append =
      changeFirst CompiledRule.id append.ruleId (·.allow (append.compiled R)) rules := rfl

/-- Appended allowlists come one after the other. -/
theorem foldl_allow (appends : List AppendOverride) (rule : CompiledRule R) :
    appends.foldl (fun rule append => rule.allow (append.compiled R)) rule =
      rule.allowAll (appends.map (AppendOverride.compiled R)) := by
  induction appends generalizing rule with
  | nil => rw [List.foldl_nil, List.map_nil, CompiledRule.allowAll, List.append_nil]
  | cons append rest ih =>
      rw [List.foldl_cons, ih, List.map_cons, CompiledRule.allowAll, CompiledRule.allowAll,
        CompiledRule.allow, List.append_assoc]
      rfl

/-- The rules with a name behind the overrides. -/
theorem ofKey_mergeOverrides (rules : List (CompiledRule R)) (overrides : Option OverridesFile)
    (id : String) :
    ofKey CompiledRule.id id (mergeOverridesIntoRules R properties rules overrides) =
      effectiveRules R properties (overrides.getD {}) id rules := by
  have hfile : ∀ file : OverridesFile, ofKey CompiledRule.id id
      ((file.append.getD []).foldl (appendAllowlist R)
        ((file.rules.getD []).foldl (replaceRule R properties) rules)) =
      effectiveRules R properties file id rules := by
    intro file
    have hchanges := ofKey_changeAll CompiledRule.id AppendOverride.ruleId
      (fun append rule => rule.allow (append.compiled R)) (fun _ _ => rfl) id
      (file.append.getD []) ((file.rules.getD []).foldl (replaceRule R properties) rules)
    refine hchanges.trans ?_
    simp only [foldl_allow]
    rw [foldl_replaceRule, ofKey_putAll, effectiveRules, replacement]
    cases (ofKey CompiledRule.id id
      ((file.rules.getD []).filterMap (overrideRule R properties))).getLast? <;> rfl
  cases overrides with
  | none => exact hfile {}
  | some file => exact hfile file

/-! ## Findings with overrides -/

variable {checks : MatchChecks R} {global : CompiledGlobalAllowlist R} {body : String}
  {build : String → Option R.Regex} {builds : List String → Bool}
  {allowlist : Option AllowlistRaw} {raw : List RuleRaw} {overrides : Option OverridesFile}
  {config : GitleaksCompiled R}

/-- The rule is for pages and, where keywords are searched for, has one that occurs or none. -/
def applies (searches : Bool) (body : String) (rule : CompiledRule R) : Bool :=
  rule.path.isNone && !(searches && missesKeywords body rule)

/-- A rule that was just compiled has no numbers. -/
theorem fresh_compiledRule {raw : RuleRaw} {source : Option R.Regex} {rule : CompiledRule R}
    (h : source.map (compiledRule R properties raw) = some rule) :
    rule.keywordPatternIds = none := by
  obtain ⟨_, -, rfl⟩ := Option.map_eq_some_iff.mp h
  rfl

/-- The numbers of the keywords come after the overrides. -/
theorem fresh_mergeOverrides (build : String → Option R.Regex) (raw : List RuleRaw)
    (overrides : Option OverridesFile) :
    ∀ rule ∈ mergeOverridesIntoRules R properties
      (raw.filterMap (loadRule R properties build)) overrides, rule.keywordPatternIds = none := by
  have hupstream : ∀ rule ∈ raw.filterMap (loadRule R properties build),
      rule.keywordPatternIds = none := by
    intro rule hrule
    obtain ⟨_, -, hload⟩ := List.mem_filterMap.mp hrule
    exact fresh_compiledRule hload
  cases overrides with
  | none => exact hupstream
  | some file =>
      have hreplaced : ∀ rule ∈ (file.rules.getD []).foldl (replaceRule R properties)
          (raw.filterMap (loadRule R properties build)), rule.keywordPatternIds = none := by
        refine List.foldlRecOn (file.rules.getD []) (replaceRule R properties)
          (motive := fun rules => ∀ rule ∈ rules, rule.keywordPatternIds = none) hupstream ?_
        intro rules hrules override _
        rw [replaceRule_eq]
        cases hoverride : overrideRule R properties override with
        | none => exact hrules
        | some compiled => exact forall_put (fresh_compiledRule hoverride) hrules
      refine List.foldlRecOn (file.append.getD []) (appendAllowlist R)
        (motive := fun rules => ∀ rule ∈ rules, rule.keywordPatternIds = none) hreplaced ?_
      exact fun rules hrules append _ => forall_changeFirst (fun _ h => h) hrules

/-- The numbers of the keywords do not matter for the matches. -/
theorem findingsOf_cleared (rules : List (CompiledRule R)) :
    findingsOf checks global body (rules.map CompiledRule.cleared) =
      findingsOf checks global body rules := by
  rw [findingsOf, firstMatches, List.flatMap_map]
  rfl

/-- With numbers, the rules that are tried are those that apply. -/
theorem findingsOf_build {rules : List (CompiledRule R)}
    (hfresh : ∀ rule ∈ rules, rule.keywordPatternIds = none) :
    findingsOf checks global body ((buildKeywordPrefilter builds rules).2.filter fun rule =>
        rule.path.isNone && !skippedByPrefilter
          ((buildKeywordPrefilter builds rules).1.map (·.matchedPatternIds body)) rule) =
      findingsOf checks global body
        (rules.filter (applies (prefilterFits builds rules) body)) := by
  have hcleared : rules.map CompiledRule.cleared = rules := by
    refine (List.map_congr_left fun rule hrule => ?_).trans (List.map_id rules)
    show { rule with keywordPatternIds := none } = rule
    rw [← hfresh rule hrule]
  have htried : (buildKeywordPrefilter builds rules).2.filter (fun rule =>
        rule.path.isNone && !skippedByPrefilter
          ((buildKeywordPrefilter builds rules).1.map (·.matchedPatternIds body)) rule) =
      (buildKeywordPrefilter builds rules).2.filter
        (applies (prefilterFits builds rules) body ∘ CompiledRule.cleared) := by
    refine List.filter_congr fun rule hrule => ?_
    rw [skippedByPrefilter_build builds hfresh body hrule]
    rfl
  rw [htried, ← findingsOf_cleared, ← List.filter_map, buildKeywordPrefilter_cleared, hcleared]

/-- The effective rules for a name have it. -/
theorem id_of_mem_effectiveRules {id : String} {rules : List (CompiledRule R)}
    {rule : CompiledRule R} (h : rule ∈ effectiveRules R properties (overrides.getD {}) id rules) :
    rule.id = id := by
  rw [← ofKey_mergeOverrides] at h
  exact (mem_ofKey.mp h).2

/-- A scan has the findings of the rules that apply. -/
theorem detect_eq_findingsOf (hconfig : loadCompiled R properties build builds allowlist raw
      overrides = some config) (body : String) :
    detectExposedSecretsInner checks config body true =
      findingsOf checks (compileGlobalAllowlist R allowlist) body
        ((mergeOverridesIntoRules R properties (raw.filterMap (loadRule R properties build))
            overrides).filter
          (applies (prefilterFits builds (mergeOverridesIntoRules R properties
            (raw.filterMap (loadRule R properties build)) overrides)) body)) := by
  simp only [loadCompiled] at hconfig
  split at hconfig
  · cases hconfig
  · cases hconfig
    rw [detectExposedSecretsInner_eq]
    show findingsOf checks _ body ((buildKeywordPrefilter builds _).2.filter fun rule =>
      rule.path.isNone && !skippedByPrefilter
        ((buildKeywordPrefilter builds _).1.map (·.matchedPatternIds body)) rule) = _
    rw [findingsOf_build (fresh_mergeOverrides build raw overrides)]

/-- The rules with a name that apply are the effective ones. -/
theorem filter_applies_mergeOverrides (rules : List (CompiledRule R)) (searches : Bool)
    (body id : String) :
    ((mergeOverridesIntoRules R properties rules overrides).filter
        (applies searches body)).filter (·.id = id) =
      (effectiveRules R properties (overrides.getD {}) id rules).filter
        (applies searches body) := by
  rw [List.filter_comm, ← ofKey_mergeOverrides]
  rfl

/-- The findings of a rule, whatever the other rules are: those of the effective rules with its
name that apply. -/
theorem filter_findings (hconfig : loadCompiled R properties build builds allowlist raw overrides =
      some config) {body : String} {secrets : List ExposedSecret}
    (hsecrets : detectExposedSecretsInner checks config body true = some secrets) (id : String) :
    findingsOf checks (compileGlobalAllowlist R allowlist) body
        ((effectiveRules R properties (overrides.getD {}) id
            (raw.filterMap (loadRule R properties build))).filter
          (applies (prefilterFits builds (mergeOverridesIntoRules R properties
            (raw.filterMap (loadRule R properties build)) overrides)) body)) =
      some (secrets.filter (·.secretType = id)) := by
  rw [detect_eq_findingsOf hconfig] at hsecrets
  rw [← filter_applies_mergeOverrides]
  exact filter_findingsOf hsecrets id

/-- The overrides say something about the rules with a name. -/
def OverridesFile.Names (file : OverridesFile) (id : String) : Prop :=
  (∃ raw ∈ file.rules.getD [], raw.id = id) ∨ ∃ append ∈ file.append.getD [], append.ruleId = id

/-- Without a file no rule is named. -/
theorem not_names_getD_none {id : String} : ¬((none : Option OverridesFile).getD {}).Names id := by
  rintro (⟨raw, hraw, -⟩ | ⟨append, happend, -⟩)
  · cases hraw
  · cases happend

/-- The rules with a name that the overrides do not have stay as they are. -/
theorem effectiveRules_of_not_names {file : OverridesFile} {id : String} (h : ¬file.Names id)
    (rules : List (CompiledRule R)) :
    effectiveRules R properties file id rules = ofKey CompiledRule.id id rules := by
  rw [OverridesFile.Names, not_or] at h
  obtain ⟨hrules, happend⟩ := h
  have hnone : ofKey CompiledRule.id id
      ((file.rules.getD []).filterMap (overrideRule R properties)) = [] := by
    refine ofKey_eq_nil fun compiled hcompiled hid => ?_
    obtain ⟨raw, hraw, hload⟩ := List.mem_filterMap.mp hcompiled
    exact hrules ⟨raw, hraw, (id_overrideRule hload).symm.trans hid⟩
  have hlists : (file.append.getD []).filter (·.ruleId = id) = [] := by
    rw [List.filter_eq_nil_iff]
    exact fun append hmem hid => happend ⟨append, hmem, of_decide_eq_true hid⟩
  rw [effectiveRules, replacement, hnone, appendedAllowlists, hlists]
  show (ofKey CompiledRule.id id rules).modifyHead (·.allowAll []) = _
  simp only [CompiledRule.allowAll, List.append_nil]
  exact congrFun List.modifyHead_id _

/-- The overrides are read when there are rules, so without them there are rules as well. -/
theorem exists_loadCompiled_none
    (hconfig : loadCompiled R properties build builds allowlist raw overrides = some config) :
    ∃ plain, loadCompiled R properties build builds allowlist raw none = some plain := by
  simp only [loadCompiled] at hconfig ⊢
  by_cases hrules : (raw.filterMap (loadRule R properties build)).isEmpty = true
  · rw [if_pos hrules] at hconfig
    cases hconfig
  · rw [if_neg hrules]
    exact ⟨_, rfl⟩

/-- A scan is made rule by rule. Its findings are lost exactly if those of one name are by
themselves. Otherwise the findings of a name are those of the rules with the name, where the last
one of the overrides stands in the place of the first one, with the allowlists of the overrides
behind its own. If the keyword search can be built with the overrides as well as without them, or
with neither, what the overrides do not name is found as without them. -/
theorem findings_follow_overrides (checks : MatchChecks R) (properties : Text.CaseProperties)
    (build : String → Option R.Regex) (builds : List String → Bool)
    (allowlist : Option AllowlistRaw) (raw : List RuleRaw) (overrides : Option OverridesFile)
    (config : GitleaksCompiled R)
    (hconfig : loadCompiled R properties build builds allowlist raw overrides = some config)
    (body : String) :
    let upstream := raw.filterMap (loadRule R properties build)
    let searches := prefilterFits builds (mergeOverridesIntoRules R properties upstream overrides)
    let findings := fun id => findingsOf checks (compileGlobalAllowlist R allowlist) body
      ((effectiveRules R properties (overrides.getD {}) id upstream).filter
        (applies searches body))
    (detectExposedSecretsInner checks config body true = none ↔ ∃ id, findings id = none) ∧
      (∀ secrets, detectExposedSecretsInner checks config body true = some secrets →
        ∀ id, findings id = some (secrets.filter (·.secretType = id))) ∧
      ∃ plain, loadCompiled R properties build builds allowlist raw none = some plain ∧
        (prefilterFits builds upstream = searches →
          ∀ secrets others, detectExposedSecretsInner checks config body true = some secrets →
            detectExposedSecretsInner checks plain body true = some others →
            ∀ id, ¬(overrides.getD {}).Names id →
              secrets.filter (·.secretType = id) = others.filter (·.secretType = id)) := by
  intro upstream searches findings
  obtain ⟨plain, hplain⟩ := exists_loadCompiled_none hconfig
  refine ⟨?_, fun secrets hsecrets id => filter_findings hconfig hsecrets id, plain, hplain, ?_⟩
  · rw [detect_eq_findingsOf hconfig, findingsOf_eq_none_iff]
    exact exists_congr fun id => by rw [filter_applies_mergeOverrides]
  · intro hsearches secrets others hsecrets hothers id hnames
    have hwith := filter_findings hconfig hsecrets id
    have hwithout := filter_findings hplain hothers id
    -- Without overrides the effective rules are those with the name.
    rw [effectiveRules_of_not_names hnames] at hwith
    rw [effectiveRules_of_not_names not_names_getD_none] at hwithout
    have hmerged : mergeOverridesIntoRules R properties upstream none = upstream := rfl
    rw [hmerged, hsearches] at hwithout
    exact Option.some.inj (hwith.symm.trans hwithout)

/-- The classes of the ASCII letters. -/
def asciiCase : Text.CaseProperties where
  isCased := Char.isAlpha
  isCaseIgnorable _ := false

/-- Two rules for words. -/
def twoRules : List RuleRaw :=
  [{ id := "first", regex := some "abc", keywords := some ["ab"] },
    { id := "second", regex := some "xyz" }]

/-- Another word for the first rule, and a word that the second rule skips. -/
def bothOverrides : OverridesFile where
  append := some [{ ruleId := "second", stopwords := some ["xyz"] }]
  rules := some [{ id := "first", regex := some "abd" }]

/-- One rule is replaced and the other gets an allowlist. -/
theorem findings_follow_overrides_two_rules :
    ∃ config secrets, loadCompiled wordCrate asciiCase wordCrate.new (fun _ => true) none twoRules
        (some bothOverrides) = some config ∧
      detectExposedSecretsInner wordChecks config "abc abd xyz" true = some secrets ∧
      secrets.map findingKey = [("first", "abd")] ∧
      findingsOf wordChecks (compileGlobalAllowlist wordCrate none) "abc abd xyz"
          ((effectiveRules wordCrate asciiCase bothOverrides "first"
              (twoRules.filterMap (loadRule wordCrate asciiCase wordCrate.new))).filter
            (applies (prefilterFits (fun _ => true) (mergeOverridesIntoRules wordCrate asciiCase
              (twoRules.filterMap (loadRule wordCrate asciiCase wordCrate.new))
              (some bothOverrides))) "abc abd xyz")) =
        some (secrets.filter (·.secretType = "first")) := by
  refine ⟨_, _, rfl, rfl, by decide +kernel, ?_⟩
  exact (findings_follow_overrides wordChecks asciiCase wordCrate.new (fun _ => true) none twoRules
    (some bothOverrides) _ rfl "abc abd xyz").2.1 _ rfl "first"

/-! ## Allowlists that are appended -/

/-- Some allowlists skip a match of a rule. -/
def skipsMatch (checks : MatchChecks R) (lists : List (CompiledRuleAllowlist R))
    (rule : CompiledRule R) (body : String) (found : Found) : Bool :=
  (found.groups[0]?).join.any fun fullMatch =>
    ruleAllowlistSkips lists (extractSecret found.groups fullMatch rule.secretGroup)
      (checks.lineContaining body found.start found.stop) fullMatch

/-- A match shows a value by one of the rules, which has a place among them. -/
structure Shows (checks : MatchChecks R) (global : CompiledGlobalAllowlist R)
    (rules : List (CompiledRule R)) (searches : Bool) (body value : String) (place : ℕ)
    (rule : CompiledRule R) (found : Found) : Prop where
  rule_at : rules[place]? = some rule
  applies : applies searches body rule = true
  found_in : found ∈ checks.capturesIter rule.regex body
  value : (plausibleMatch checks global rule body found).map (·.matchedValue) = some value

/-- Further allowlists take away the matches they skip. -/
theorem plausibleMatch_allowAll (rule : CompiledRule R) (lists : List (CompiledRuleAllowlist R))
    (found : Found) :
    plausibleMatch checks global (rule.allowAll lists) body found =
      if skipsMatch checks lists rule body found then none
      else plausibleMatch checks global rule body found := by
  unfold plausibleMatch skipsMatch
  cases (found.groups[0]?).join with
  | none => rfl
  | some fullMatch =>
      have hsplit : ∀ (first second : Bool) (passed : Option PlausibleMatch),
          (if (first || second) = true then none else passed) =
            if second = true then none else if first = true then none else passed := by
        intro first second passed
        cases first <;> cases second <;> rfl
      show (if (_ || ruleAllowlistSkips (rule.allowlists ++ lists) _ _ _) = true then none
        else _) = _
      rw [ruleAllowlistSkips, List.any_append, ← Bool.or_assoc, hsplit]
      rfl

/-- Allowlists change no keywords. -/
theorem distinctKeywords_foldl_appendAllowlist (appends : List AppendOverride)
    (rules : List (CompiledRule R)) :
    distinctKeywords (appends.foldl (appendAllowlist R) rules) = distinctKeywords rules := by
  induction appends generalizing rules with
  | nil => rfl
  | cons append rest ih =>
      have hkeywords : (appendAllowlist R rules append).map CompiledRule.nonemptyKeywords =
          rules.map CompiledRule.nonemptyKeywords := by
        rw [appendAllowlist_eq, map_changeFirst]
        exact fun _ => rfl
      rw [List.foldl_cons, ih, distinctKeywords, distinctKeywords, List.flatMap_def,
        List.flatMap_def, hkeywords]

/-- Allowlists do not change the prefilter. -/
theorem prefilterFits_append (file : OverridesFile) (rules : List (CompiledRule R)) :
    prefilterFits builds (mergeOverridesIntoRules R properties rules (some file)) =
      prefilterFits builds
        (mergeOverridesIntoRules R properties rules (some { file with append := none })) := by
  show prefilterFits builds ((file.append.getD []).foldl (appendAllowlist R) _) = _
  rw [prefilterFits, distinctKeywords_foldl_appendAllowlist]
  rfl

/-- What is appended is no reason to fail. -/
theorem exists_loadCompiled_append {file : OverridesFile}
    (hconfig : loadCompiled R properties build builds allowlist raw (some file) = some config) :
    ∃ plain, loadCompiled R properties build builds allowlist raw
      (some { file with append := none }) = some plain := by
  simp only [loadCompiled] at hconfig ⊢
  by_cases hrules : (raw.filterMap (loadRule R properties build)).isEmpty = true
  · rw [if_pos hrules] at hconfig
    cases hconfig
  · rw [if_neg hrules]
    exact ⟨_, rfl⟩

/-- The rules in effect, with and without the allowlists. -/
theorem effectiveRules_append (file : OverridesFile) (id : String)
    (rules : List (CompiledRule R)) :
    effectiveRules R properties file id rules =
      (effectiveRules R properties { file with append := none } id rules).modifyHead
        (·.allowAll (appendedAllowlists R file id)) := by
  have hnone : appendedAllowlists R { file with append := none } id = [] := rfl
  have hsame : (fun rule : CompiledRule R => rule.allowAll []) = fun rule => rule := by
    funext rule
    rw [CompiledRule.allowAll, List.append_nil]
  unfold effectiveRules
  rw [hnone, hsame]
  exact congrArg (List.modifyHead _) (congrFun List.modifyHead_id _).symm

/-- A value is found for a rule when a match of an effective rule that applies shows it. -/
theorem mem_keys_detect (hconfig : loadCompiled R properties build builds allowlist raw overrides =
      some config) {body : String} {secrets : List ExposedSecret}
    (hsecrets : detectExposedSecretsInner checks config body true = some secrets)
    (id value : String) :
    (id, value) ∈ secrets.map findingKey ↔
      ∃ rule ∈ effectiveRules R properties (overrides.getD {}) id
          (raw.filterMap (loadRule R properties build)),
        applies (prefilterFits builds (mergeOverridesIntoRules R properties
            (raw.filterMap (loadRule R properties build)) overrides)) body rule = true ∧
          ∃ found ∈ checks.capturesIter rule.regex body,
            (plausibleMatch checks (compileGlobalAllowlist R allowlist) rule body found).map
              (·.matchedValue) = some value := by
  have hkind : (id, value) ∈ secrets.map findingKey ↔
      (id, value) ∈ (secrets.filter (·.secretType = id)).map findingKey := by
    simp only [List.mem_map, List.mem_filter, decide_eq_true_eq]
    refine exists_congr fun secret => ⟨fun h => ?_, fun h => ⟨h.1.1, h.2⟩⟩
    exact ⟨⟨h.1, congrArg Prod.fst h.2⟩, h.2⟩
  rw [hkind, mem_keys_findingsOf (filter_findings hconfig hsecrets id)]
  simp only [List.mem_filter, and_assoc]
  refine exists_congr fun rule => and_congr_right fun hrule => and_congr_right fun _ => ?_
  have hid : rule.id = id := id_of_mem_effectiveRules hrule
  constructor
  · rintro ⟨shown, hmatch, hkey⟩
    obtain ⟨found, hfound, hshown⟩ := List.mem_filterMap.mp hmatch
    obtain ⟨passed, hpassed, rfl⟩ := Option.map_eq_some_iff.mp hshown
    exact ⟨found, hfound, by rw [hpassed]; exact congrArg some (congrArg Prod.snd hkey)⟩
  · rintro ⟨found, hfound, hvalue⟩
    obtain ⟨passed, hpassed, rfl⟩ := Option.map_eq_some_iff.mp hvalue
    refine ⟨{ ruleId := rule.id, found, passed }, List.mem_filterMap.mpr ⟨found, hfound, ?_⟩, ?_⟩
    · rw [ruleMatch, hpassed]
      rfl
    · rw [RuleMatch.key, hid]

end DomainStatus.Secrets
