import DomainStatus.Lib.Text
import DomainStatus.Parse.Gitleaks
import Mathlib.Data.Nat.Digits.Defs

/-!
# Exposed secrets in a page

`detect_exposed_secrets_inner`, after `src/parse/secrets.rs`: every rule runs over the body, and
what it finds is filtered and reported once for each rule and value. The inference of a location can
panic, and then there are no findings at all. Read `skippedByPrefilter_numbered` first: the
keyword search skips a rule exactly when none of its keywords occurs. The functions that judge a
single match are parameters.
-/

namespace DomainStatus.Secrets

/-- How bad it is that a secret is public. -/
inductive SecretSeverity where
  | critical | high | medium | low
  deriving DecidableEq

/-- The claims of a JSON Web Token. Times are in milliseconds since the epoch. -/
structure DecodedJwt where
  headerJson : String
  payloadJson : String
  algorithm : Option String
  tokenType : Option String
  issuer : Option String
  subject : Option String
  audience : Option String
  expirationMs : Option ℤ
  issuedAtMs : Option ℤ
  notBeforeMs : Option ℤ
  jwtId : Option String
  deriving DecidableEq

/-- A secret that a page gives away. -/
structure ExposedSecret where
  secretType : String
  matchedValue : String
  context : String
  severity : SecretSeverity
  location : String
  decodedJwt : Option DecodedJwt
  deriving DecidableEq

/-- A match of a rule's expression, with its place in the body. -/
structure Found where
  start : ℕ
  stop : ℕ
  groups : Captures

/-- The functions that look at a single match. The inference of its location has no answer where it
panics. -/
structure MatchChecks (R : RegexCrate) where
  capturesIter : R.Regex → String → List Found
  shannonEntropy : String → ℚ
  webRuleMatchIsPlausible : String → String → Bool
  webRuleMatchIsPlausibleInContext : String → String → String → String → String → Bool
  extractContext : String → ℕ → ℕ → String
  lineContaining : String → ℕ → ℕ → String
  inferLocationForBodyMatch : String → ℕ → String → Option String
  severityForFinding : String → String → String → SecretSeverity
  decodeJwt : String → Option DecodedJwt
  decodeJwtBase64 : String → Option DecodedJwt

variable {R : RegexCrate}

/-- The secret in a match: the named group, else the first group with some text, else the whole
match. -/
def extractSecret (groups : Captures) (fullMatch : String) (secretGroup : Option ℕ) : String :=
  let named := (secretGroup.filter (0 < ·)).bind fun group => (groups[group]?).join
  let first := (groups.drop 1).findSome? fun group => group.filter (· ≠ "")
  (named.or first).getD fullMatch

/-- The allowlist of all rules looks at the secret alone. -/
def globalAllowlistSkips (global : CompiledGlobalAllowlist R) (matchedValue : String) : Bool :=
  global.regexes.any (R.isMatch · matchedValue) ||
    global.stopwords.any fun word => Text.contains matchedValue.toList word.toList

/-- One allowlist of a rule. With `AND` all its criteria must match, and paths never do. -/
def allowlistSkips (list : CompiledRuleAllowlist R) (matchedValue lineContent fullMatch : String) :
    Bool :=
  let target :=
    match list.regexTarget with
    | some "line" => lineContent
    | some "match" => fullMatch
    | _ => matchedValue
  let hasWord := fun word : String => Text.contains target.toList word.toList
  if list.conditionAnd then
    !list.hasPaths && list.regexes.all (R.isMatch · target) && list.stopwords.all hasWord
  else list.regexes.any (R.isMatch · target) || list.stopwords.any hasWord

/-- One of the allowlists of a rule skips the match. -/
def ruleAllowlistSkips (allowlists : List (CompiledRuleAllowlist R))
    (matchedValue lineContent fullMatch : String) : Bool :=
  allowlists.any fun list => allowlistSkips list matchedValue lineContent fullMatch

/-- The rules of a scan. -/
structure GitleaksCompiled (R : RegexCrate) where
  globalAllowlist : CompiledGlobalAllowlist R
  rules : List (CompiledRule R)
  keywordPrefilter : Option KeywordPrefilter

/-- The findings so far, and the rules and values that were seen. -/
structure ScanState where
  results : List ExposedSecret := []
  seen : List (String × String) := []

variable (checks : MatchChecks R)

/-- What is known of a match that passes all checks. -/
structure PlausibleMatch where
  matchedValue : String
  context : String
  lineContent : String

/-- What the checks let through of a match. -/
def plausibleMatch (global : CompiledGlobalAllowlist R) (rule : CompiledRule R) (body : String)
    (found : Found) : Option PlausibleMatch :=
  (found.groups[0]?).join.bind fun fullMatch =>
    let matchedValue := extractSecret found.groups fullMatch rule.secretGroup
    let context := checks.extractContext body found.start found.stop
    let lineContent := checks.lineContaining body found.start found.stop
    if rule.entropy.any (checks.shannonEntropy matchedValue < ·) ||
        globalAllowlistSkips global matchedValue ||
        !checks.webRuleMatchIsPlausible rule.id matchedValue ||
        !checks.webRuleMatchIsPlausibleInContext rule.id matchedValue context fullMatch
          lineContent ||
        ruleAllowlistSkips rule.allowlists matchedValue lineContent fullMatch then none
    else some { matchedValue, context, lineContent }

/-- The secret of a match, unless its location cannot be inferred. -/
def exposedSecret (ruleId : String) (body : String) (found : Found)
    (passed : PlausibleMatch) : Option ExposedSecret :=
  (checks.inferLocationForBodyMatch body found.start passed.context).map fun location =>
    { secretType := ruleId
      matchedValue := passed.matchedValue
      context := passed.context
      severity := checks.severityForFinding ruleId passed.lineContent passed.context
      location := location
      decodedJwt :=
        if ruleId = "jwt" then checks.decodeJwt passed.matchedValue
        else if ruleId = "jwt-base64" then checks.decodeJwtBase64 passed.matchedValue
        else none }

/-- Reports a secret unless the rule has found its value before. -/
def scanMatch (global : CompiledGlobalAllowlist R) (rule : CompiledRule R) (body : String)
    (state : ScanState) (found : Found) : Option ScanState :=
  match plausibleMatch checks global rule body found with
  | none => some state
  | some passed =>
      if (rule.id, passed.matchedValue) ∈ state.seen then some state
      else
        (exposedSecret checks rule.id body found passed).map fun secret =>
          { results := state.results ++ [secret]
            seen := state.seen ++ [(rule.id, passed.matchedValue)] }

/-- All matches of a rule, one after the other. -/
def scanRule (global : CompiledGlobalAllowlist R) (body : String) (state : ScanState)
    (rule : CompiledRule R) : Option ScanState :=
  (checks.capturesIter rule.regex body).foldlM (scanMatch checks global rule body) state

/-- The keyword search found none of the rule's keywords. -/
def skippedByPrefilter (matched : Option (List ℕ)) (rule : CompiledRule R) : Bool :=
  match rule.keywordPatternIds, matched with
  | some ids, some matched => !ids.isEmpty && !KeywordPrefilter.anyIdPresent ids matched
  | _, _ => false

/-- The findings in a body. Where the location of one of them cannot be inferred there are none. -/
def detectExposedSecretsInner (config : GitleaksCompiled R) (body : String) (usePrefilter : Bool) :
    Option (List ExposedSecret) :=
  let matchedKeywordIds :=
    if usePrefilter then
      config.keywordPrefilter.map fun prefilter => prefilter.matchedPatternIds body
    else none
  (config.rules.foldlM
    (fun (state : ScanState) (rule : CompiledRule R) =>
      -- Rules for certain files do not apply to a page.
      if rule.path.isSome then some state
      else if skippedByPrefilter matchedKeywordIds rule then some state
      else scanRule checks config.globalAllowlist body state rule)
    {}).map (·.results)

/-- The rule has a keyword, and none of its keywords occurs in the body. Empty keywords do not
count. -/
def missesKeywords (body : String) (rule : CompiledRule R) : Bool :=
  let keywords := (rule.keywords.getD []).filter (· ≠ "")
  !keywords.isEmpty && keywords.all fun keyword =>
    !decide (AhoCorasick.Occurs body.toList keyword.toList)

/-! ## The keyword search -/

/-- A rule is left out if it has keywords and none of them occurs. -/
theorem missesKeywords_iff {body : String} {rule : CompiledRule R} :
    missesKeywords body rule = true ↔
      (∃ keyword ∈ rule.keywords.getD [], keyword ≠ "") ∧
        ∀ keyword ∈ rule.keywords.getD [], keyword ≠ "" →
          ¬ AhoCorasick.Occurs body.toList keyword.toList := by
  simp only [missesKeywords, Bool.and_eq_true, Bool.not_eq_true',
    List.isEmpty_eq_false_iff_exists_mem, List.mem_filter, decide_eq_true_eq, List.all_eq_true,
    decide_eq_false_iff_not, and_imp]

/-- With numbers that stand for its keywords, a rule is skipped exactly when it misses them. -/
theorem skippedByPrefilter_numbered {needles : Interner} {rule : CompiledRule R}
    (h : Numbered needles rule) (hne : ∀ needle ∈ needles.needles, needle ≠ "")
    (body : String) :
    skippedByPrefilter
        (some (KeywordPrefilter.matchedPatternIds { patterns := needles.needles } body)) rule =
      missesKeywords body rule := by
  obtain ⟨hknown, hids⟩ := h
  rw [Bool.eq_iff_iff, missesKeywords_iff]
  cases hrule : rule.keywordPatternIds with
  | none =>
      rw [hrule] at hids
      simp only [skippedByPrefilter, hrule, Bool.false_eq_true, false_iff, not_and]
      intro h
      obtain ⟨keyword, hmem, hkeyword⟩ := h
      exact absurd (hids keyword hmem) hkeyword
  | some ids =>
      rw [hrule] at hids
      obtain ⟨hsome, hstands⟩ := hids
      have hpatterns : ∀ pattern ∈ needles.needles.map String.toList, pattern ≠ [] := by
        intro pattern hpattern
        obtain ⟨needle, hneedle, rfl⟩ := List.mem_map.mp hpattern
        simpa using hne needle hneedle
      -- A number was reported when its keyword occurs.
      have hreported : ∀ id, id ∈ KeywordPrefilter.matchedPatternIds
          { patterns := needles.needles } body ↔ ∃ needle, needles.needles[id]? = some needle ∧
            AhoCorasick.Occurs body.toList needle.toList := by
        intro id
        rw [KeywordPrefilter.matchedPatternIds, AhoCorasick.mem_findOverlappingIter hpatterns]
        simp
      simp only [skippedByPrefilter, hrule, KeywordPrefilter.anyIdPresent, Bool.and_eq_true,
        Bool.not_eq_true', List.isEmpty_eq_false_iff, List.any_eq_false, List.contains_iff_mem,
        hreported]
      constructor
      · intro h
        obtain ⟨-, hnone⟩ := h
        obtain ⟨id, hid⟩ := List.exists_mem_of_ne_nil ids hsome
        obtain ⟨keyword, hmem, hkeyword, -⟩ := (hstands id).mp hid
        refine ⟨⟨keyword, hmem, hkeyword⟩, fun other hother hnonempty hoccurs => ?_⟩
        obtain ⟨number, hnumber⟩ := List.mem_iff_getElem?.mp (hknown other hother hnonempty)
        exact hnone number ((hstands number).mpr ⟨other, hother, hnonempty, hnumber⟩)
          ⟨other, hnumber, hoccurs⟩
      · intro h
        obtain ⟨-, hnone⟩ := h
        refine ⟨hsome, fun id hid => ?_⟩
        intro h
        obtain ⟨needle, hneedle, hoccurs⟩ := h
        obtain ⟨keyword, hmem, hkeyword, hid⟩ := (hstands id).mp hid
        rw [hid, Option.some.injEq] at hneedle
        exact hnone keyword hmem hkeyword (hneedle ▸ hoccurs)

/-- Without a prefilter no rule is left out. -/
theorem skippedByPrefilter_none (rule : CompiledRule R) : skippedByPrefilter none rule = false := by
  unfold skippedByPrefilter
  cases rule.keywordPatternIds <;> rfl

/-- A run that passes over some rules is a run over the others. -/
theorem detectExposedSecretsInner_filter (config : GitleaksCompiled R) (body : String) :
    detectExposedSecretsInner checks config body true =
      detectExposedSecretsInner checks
        { config with rules := config.rules.filter fun rule =>
            !skippedByPrefilter (config.keywordPrefilter.map (·.matchedPatternIds body)) rule }
        body false := by
  unfold detectExposedSecretsInner
  simp only [if_true, Bool.false_eq_true, if_false, List.foldlM_filter, skippedByPrefilter_none]
  congr 2
  funext state rule
  by_cases hpath : rule.path.isSome = true
  · simp [hpath]
  · cases skippedByPrefilter (config.keywordPrefilter.map (·.matchedPatternIds body)) rule <;>
      simp [hpath]

/-- There are numbers for all keywords, and the search for them can be built. -/
def prefilterFits (builds : List String → Bool) (rules : List (CompiledRule R)) : Bool :=
  decide ((distinctKeywords rules).length ≤ maxNeedles) && builds (distinctKeywords rules)

/-- The search skips the rules that miss their keywords, provided that it can be built. -/
theorem skippedByPrefilter_build (builds : List String → Bool) {rules : List (CompiledRule R)}
    (hfresh : ∀ rule ∈ rules, rule.keywordPatternIds = none) (body : String)
    {rule : CompiledRule R} (hrule : rule ∈ (buildKeywordPrefilter builds rules).2) :
    skippedByPrefilter
        ((buildKeywordPrefilter builds rules).1.map (·.matchedPatternIds body)) rule =
      (prefilterFits builds rules && missesKeywords body rule) := by
  have hsome := buildKeywordPrefilter_isSome builds rules
  cases hbuilt : (buildKeywordPrefilter builds rules).1 with
  | some prefilter =>
      rw [hbuilt] at hsome
      obtain ⟨-, hroom, hbuilds⟩ := hsome.mp rfl
      obtain ⟨needles, rfl, hne, hall⟩ := buildKeywordPrefilter_some hfresh hbuilt
      rw [prefilterFits, hbuilds, decide_eq_true hroom]
      simpa using skippedByPrefilter_numbered (hall rule hrule) hne body
  | none =>
      rw [Option.map_none, skippedByPrefilter_none, eq_comm, Bool.and_eq_false_imp]
      intro hfits
      rw [prefilterFits, Bool.and_eq_true, decide_eq_true_eq] at hfits
      rw [hbuilt] at hsome
      simp only [Option.isSome_none, Bool.false_eq_true, hfits, and_true, ne_eq, false_iff,
        not_not] at hsome
      -- There is no keyword at all, so the rule misses none.
      rw [← Bool.not_eq_true, missesKeywords_iff]
      intro h
      obtain ⟨⟨keyword, hmem, hkeyword⟩, -⟩ := h
      have hmem := mem_distinctKeywords_of_build hrule hmem hkeyword
      rw [hsome] at hmem
      cases hmem

/-- A crate whose only expression matches nothing. -/
def silentCrate : RegexCrate where
  Regex := Unit
  escape := id
  new _ := some ()
  isMatch _ _ := false
  captures _ _ := none
  isMatch_eq _ _ := rfl

/-- The crate `regex` on words of ASCII letters, where a match is an occurrence. Other expressions
are not compiled. -/
def wordCrate : RegexCrate where
  Regex := List Char
  escape := id
  new source := if source.toList.all Char.isAlpha then some source.toList else none
  isMatch word text := Text.contains text.toList word
  captures word text :=
    if Text.contains text.toList word then some [some (String.ofList word)] else none
  isMatch_eq word text := by cases Text.contains text.toList word <;> simp

/-- A rule with keywords. -/
def keywordRule (keywords : List String) : CompiledRule silentCrate where
  id := "rule"
  regex := ()
  entropy := none
  keywords := some keywords
  keywordPatternIds := none
  secretGroup := none
  allowlists := []
  path := none

/-- Checks for matches, of which there are none. -/
def silentChecks : MatchChecks silentCrate where
  capturesIter _ _ := []
  shannonEntropy _ := 0
  webRuleMatchIsPlausible _ _ := true
  webRuleMatchIsPlausibleInContext _ _ _ _ _ := true
  extractContext body start stop := String.ofList ((body.toList.take stop).drop start)
  lineContaining body _ _ := body
  inferLocationForBodyMatch _ _ _ := some "body"
  severityForFinding _ _ _ := .low
  decodeJwt _ := none
  decodeJwtBase64 _ := none

/-- Provided that there are numbers for all keywords and the search for them can be built, the
search skips a rule exactly when the rule has a keyword and none of its keywords occurs in the body.
The findings are those of a run without the search over the other rules. Apart from the numbers of
their keywords the rules are as they were. -/
theorem prefilter_exact (checks : MatchChecks R) (globalAllowlist : CompiledGlobalAllowlist R)
    (builds : List String → Bool) (rules : List (CompiledRule R))
    (hfresh : ∀ rule ∈ rules, rule.keywordPatternIds = none) (body : String) :
    let built := buildKeywordPrefilter builds rules
    (∀ rule ∈ built.2,
      skippedByPrefilter (built.1.map (·.matchedPatternIds body)) rule = true ↔
        (distinctKeywords rules).length ≤ maxNeedles ∧ builds (distinctKeywords rules) = true ∧
          (∃ keyword ∈ rule.keywords.getD [], keyword ≠ "") ∧
          ∀ keyword ∈ rule.keywords.getD [], keyword ≠ "" →
            ¬ AhoCorasick.Occurs body.toList keyword.toList) ∧
    detectExposedSecretsInner checks
        { globalAllowlist := globalAllowlist, rules := built.2, keywordPrefilter := built.1 }
        body true =
      detectExposedSecretsInner checks
        { globalAllowlist := globalAllowlist
          rules := built.2.filter fun rule =>
            !(prefilterFits builds rules && missesKeywords body rule)
          keywordPrefilter := built.1 }
        body false ∧
    built.2.map CompiledRule.cleared = rules.map CompiledRule.cleared := by
  intro built
  refine ⟨fun rule hrule => ?_, ?_, buildKeywordPrefilter_cleared builds rules⟩
  · rw [skippedByPrefilter_build builds hfresh body hrule, Bool.and_eq_true, missesKeywords_iff,
      prefilterFits, Bool.and_eq_true, decide_eq_true_eq, and_assoc]
  · rw [detectExposedSecretsInner_filter]
    congr 2
    refine List.filter_congr fun rule hrule => ?_
    rw [skippedByPrefilter_build builds hfresh body hrule]

/-- A rule with an empty keyword and one that occurs. -/
theorem prefilter_exact_keyword :
    (∀ rule ∈ [keywordRule ["", "abc"]], rule.keywordPatternIds = none) ∧
    let built := buildKeywordPrefilter (fun _ => true) [keywordRule ["", "abc"]]
    ∀ rule ∈ built.2,
      skippedByPrefilter (built.1.map (·.matchedPatternIds "x")) rule = true ↔
        (distinctKeywords [keywordRule ["", "abc"]]).length ≤ maxNeedles ∧ true = true ∧
          (∃ keyword ∈ rule.keywords.getD [], keyword ≠ "") ∧
          ∀ keyword ∈ rule.keywords.getD [], keyword ≠ "" →
            ¬ AhoCorasick.Occurs "x".toList keyword.toList :=
  ⟨by simp [keywordRule],
    (prefilter_exact silentChecks { regexes := [], stopwords := [] } (fun _ => true)
      [keywordRule ["", "abc"]] (by simp [keywordRule]) "x").1⟩

/-! ## Where the search skips too much or too little -/

/-- The search skips the only rule, which has the given keywords. -/
def skipsOnly (builds : List String → Bool) (keywords : List String) (body : String) : Bool :=
  let built := buildKeywordPrefilter builds [keywordRule keywords]
  built.2.any (skippedByPrefilter (built.1.map (·.matchedPatternIds body)))

/-- When the only rule is left out. -/
theorem skipsOnly_eq (builds : List String → Bool) (keywords : List String) (body : String) :
    skipsOnly builds keywords body =
      (prefilterFits builds [keywordRule keywords] &&
        missesKeywords body (keywordRule keywords)) := by
  have hcleared := buildKeywordPrefilter_cleared builds [keywordRule keywords]
  obtain ⟨rule, hbuilt, hrule⟩ := List.map_eq_singleton_iff.mp hcleared
  have hkeywords : rule.cleared.keywords = some keywords := by rw [hrule]; rfl
  have hmisses : missesKeywords body rule = missesKeywords body (keywordRule keywords) := by
    unfold missesKeywords
    rw [show rule.keywords = some keywords from hkeywords]
    rfl
  have hfresh : ∀ rule ∈ [keywordRule keywords], rule.keywordPatternIds = none := by
    simp [keywordRule]
  have hskip := skippedByPrefilter_build builds hfresh body
    (show rule ∈ _ by simp [hbuilt])
  simp only [skipsOnly, hbuilt, List.any_cons, List.any_nil, Bool.or_false]
  rw [hskip, hmisses]

/-- A keyword for each number. -/
def countedKeyword (number : ℕ) : String :=
  String.ofList ('k' :: (Nat.digits 2 number).map fun digit => if digit = 0 then '0' else '1')

/-- The number that a keyword was made for. -/
def countOf (keyword : String) : ℕ :=
  Nat.ofDigits 2 ((keyword.toList.drop 1).map fun c => if c = '0' then 0 else 1)

/-- The number of a keyword is read back. -/
theorem countOf_countedKeyword (number : ℕ) : countOf (countedKeyword number) = number := by
  simp only [countOf, countedKeyword, String.toList_ofList, List.drop_succ_cons, List.drop_zero,
    List.map_map]
  have hdigits : ∀ digit ∈ Nat.digits 2 number,
      ((fun c => if c = '0' then 0 else 1) ∘ fun digit => if digit = 0 then '0' else '1') digit =
        id digit := by
    intro digit hdigit
    have hlt := Nat.digits_lt_base (by decide) hdigit
    obtain rfl | rfl : digit = 0 ∨ digit = 1 := by omega
    · rfl
    · rfl
  rw [List.map_congr_left hdigits, List.map_id, Nat.ofDigits_digits]

/-- The keywords are different. -/
theorem countedKeyword_injective : Function.Injective countedKeyword :=
  Function.LeftInverse.injective countOf_countedKeyword

/-- More keywords than there are numbers. -/
def manyKeywords : List String :=
  (List.range (maxNeedles + 1)).map countedKeyword

/-- None of the keywords is empty or occurs. -/
theorem manyKeywords_ne {keyword : String} (h : keyword ∈ manyKeywords) :
    keyword ≠ "" ∧ ¬ AhoCorasick.Occurs "x".toList keyword.toList := by
  obtain ⟨number, -, rfl⟩ := List.mem_map.mp h
  refine ⟨by simp [countedKeyword, ← String.toList_inj], fun hoccurs => ?_⟩
  have hmem : 'k' ∈ "x".toList.map Char.toLower := by
    refine hoccurs.subset ?_
    simp [countedKeyword]
  simp at hmem

/-- Different keywords are all counted. -/
theorem length_le_distinctKeywords {keywords : List String} (hnodup : keywords.Nodup)
    (hne : ∀ keyword ∈ keywords, keyword ≠ "") :
    keywords.length ≤ (distinctKeywords [keywordRule keywords]).length := by
  have hsubset : keywords ⊆ distinctKeywords [keywordRule keywords] := by
    intro keyword hmem
    rw [distinctKeywords, List.mem_eraseDups, List.flatMap_singleton, mem_nonemptyKeywords]
    exact ⟨hmem, hne keyword hmem⟩
  exact (List.subperm_of_subset hnodup hsubset).length_le

/-- An empty keyword occurs everywhere but keeps no rule from being skipped. With too many keywords,
or without a search, a rule is not skipped although none of its keywords occurs. -/
theorem prefilter_not_exact :
    (skipsOnly (fun _ => true) ["", "abc"] "x" = true ∧
      AhoCorasick.Occurs "x".toList "".toList) ∧
    (skipsOnly (fun _ => true) manyKeywords "x" = false ∧
      ∀ keyword ∈ manyKeywords, keyword ≠ "" ∧ ¬ AhoCorasick.Occurs "x".toList keyword.toList) ∧
    skipsOnly (fun _ => false) ["abc"] "x" = false ∧
      ¬ AhoCorasick.Occurs "x".toList "abc".toList := by
  refine ⟨⟨?_, by decide⟩, ⟨?_, fun keyword hmem => manyKeywords_ne hmem⟩, ?_, by decide⟩
  · rw [skipsOnly_eq]
    decide
  · have hnodup : manyKeywords.Nodup := List.nodup_range.map countedKeyword_injective
    have hlength := length_le_distinctKeywords hnodup fun keyword hmem => (manyKeywords_ne hmem).1
    rw [manyKeywords, List.length_map, List.length_range, ← manyKeywords] at hlength
    rw [skipsOnly_eq, prefilterFits, decide_eq_false (Nat.not_le.mpr hlength)]
    rfl
  · rw [skipsOnly_eq]
    simp [prefilterFits]

end DomainStatus.Secrets
