import DomainStatus.Fingerprint.Signals

/-!
# Patterns and cookie names in one cache

The process-wide cache of compiled expressions as `matches_pattern` of
`src/fingerprint/patterns/mod.rs` and `wildcard_cookie_regex` of
`src/fingerprint/detection/cookies.rs` share it. A pattern is its own key, and a cookie name has a
mark in front. Read `matches_pattern_agrees_iff` first: a pattern gives what its compiled form
gives, unless it reads like the key of a cookie name.
-/

namespace DomainStatus.Fingerprint

variable {R : RegexCrate} (moka : Moka R)

/-- The text that is compiled for a cookie name with wildcards. -/
def wildcardCookieSource (R : RegexCrate) (cookieName : String) : String :=
  "^" ++ ".*".intercalate
    ((Text.split ['*'] cookieName.toList).map fun piece => R.escape (String.ofList piece)) ++ "$"

/-- The key of a cookie pattern in the cache of patterns. -/
def cookieCacheKey (cookieName : String) : String :=
  "cookie:" ++ cookieName

/-- `wildcardCookieRegex` with the cache that it goes through. -/
def cachedCookieRegex (cache : RegexCache R) (cookieName : String) :
    Option R.Regex × RegexCache R :=
  getOrCompileRegex moka cache (wildcardCookieSource R cookieName) (cookieCacheKey cookieName)

/-- A call that goes through the cache. Only cookie names with wildcards do. -/
inductive Evaluation where
  | matchesPattern (pattern text : String)
  | wildcardCookie (cookieName : String)

/-- The cache after one evaluation. -/
def evaluateThrough (cache : RegexCache R) : Evaluation → RegexCache R
  | .matchesPattern pattern text => (matchesPattern moka cache pattern text).2
  | .wildcardCookie cookieName =>
      if isWildcard cookieName then (cachedCookieRegex moka cache cookieName).2 else cache

/-- The cache after calls in the same process. -/
def cacheThrough (evaluations : List Evaluation) : RegexCache R :=
  evaluations.foldl (evaluateThrough moka) ∅

/-! ## One call -/

section Call

variable {moka} {cache : RegexCache R}

/-- The key of a cookie name with a wildcard reads like a regular expression. -/
theorem isRegexPattern_cookieCacheKey {cookieName : String}
    (hwildcard : isWildcard cookieName = true) :
    isRegexPattern (cookieCacheKey cookieName) = true := by
  have hstar : '*' ∈ cookieName.toList := by simpa [isWildcard] using hwildcard
  simp [isRegexPattern, cookieCacheKey, hstar]

/-- The source of a wildcard cookie compiles to its expression. -/
theorem new_wildcardCookieSource (cookieName : String) :
    R.new ("(?i)" ++ wildcardCookieSource R cookieName) = wildcardCookieRegex R cookieName :=
  rfl

/-- A cached expression is used, whatever the pattern. -/
theorem getOrCompileRegex_of_hit {cacheKey : String} {cached : R.Regex}
    (hlookup : (moka.evict cache).lookup cacheKey = some cached) (pattern : String) :
    getOrCompileRegex moka cache pattern cacheKey = (some cached, moka.evict cache) := by
  simp [getOrCompileRegex, hlookup]

/-- Without an entry the pattern is compiled and stored. -/
theorem getOrCompileRegex_of_miss {cacheKey : String}
    (hlookup : (moka.evict cache).lookup cacheKey = none) (pattern : String) :
    getOrCompileRegex moka cache pattern cacheKey =
      (R.new ("(?i)" ++ pattern), (R.new ("(?i)" ++ pattern)).elim (moka.evict cache)
        fun regex => (moka.evict cache).insert cacheKey regex) := by
  unfold getOrCompileRegex
  cases hnew : R.new ("(?i)" ++ pattern) <;> simp [hlookup]

/-- A call returns the entry of its key when there is one, and compiles its pattern otherwise. -/
theorem getOrCompileRegex_fst (moka : Moka R) (cache : RegexCache R) (pattern cacheKey : String) :
    (getOrCompileRegex moka cache pattern cacheKey).1 =
      ((moka.evict cache).lookup cacheKey).or (R.new ("(?i)" ++ pattern)) := by
  cases hlookup : (moka.evict cache).lookup cacheKey with
  | some cached => rw [getOrCompileRegex_of_hit hlookup, Option.some_or]
  | none => rw [getOrCompileRegex_of_miss hlookup, Option.none_or]

/-- After a call its key has what the call returned, and the other keys what was not dropped. -/
theorem lookup_getOrCompileRegex (moka : Moka R) (cache : RegexCache R)
    (pattern cacheKey key : String) :
    (getOrCompileRegex moka cache pattern cacheKey).2.lookup key =
      if key = cacheKey then (getOrCompileRegex moka cache pattern cacheKey).1
      else (moka.evict cache).lookup key := by
  cases hlookup : (moka.evict cache).lookup cacheKey with
  | some cached =>
      rw [getOrCompileRegex_of_hit hlookup]
      by_cases hkey : key = cacheKey
      · rw [if_pos hkey, hkey, hlookup]
      · rw [if_neg hkey]
  | none =>
      rw [getOrCompileRegex_of_miss hlookup]
      cases R.new ("(?i)" ++ pattern) with
      | none =>
          by_cases hkey : key = cacheKey
          · rw [if_pos hkey, hkey, Option.elim_none, hlookup]
          · rw [if_neg hkey, Option.elim_none]
      | some regex =>
          by_cases hkey : key = cacheKey
          · rw [if_pos hkey, hkey, Option.elim_some, AList.lookup_insert]
          · rw [if_neg hkey, Option.elim_some, AList.lookup_insert_ne hkey]

/-- The template that is evaluated when a pattern matches. -/
def evaluatedTemplate (parsed : ParsedPattern) : Option String :=
  if isRegexPattern parsed.patternForMatch then parsed.versionTemplate else none

/-- The pattern is compiled at all. -/
def NeedsRegex (parsed : ParsedPattern) : Prop :=
  minPatternConfidence ≤ parsed.confidence ∧ parsed.patternForMatch ≠ ""

/-- The result of a pattern whose expression is this one. -/
def resultWith (found : Option R.Regex) (parsed : ParsedPattern) (text : String) :
    PatternMatchResult :=
  found.elim .noMatch fun regex => evaluateRegex R regex (evaluatedTemplate parsed) text

/-- A pattern that needs an expression is matched through the cache. -/
theorem matchesPattern_of_needsRegex {pattern : String} (hneeds : NeedsRegex (parsePattern pattern))
    (text : String) :
    matchesPattern moka cache pattern text =
      (resultWith (getOrCompileRegex moka cache
          (regexSource R (parsePattern pattern).patternForMatch)
          (parsePattern pattern).patternForMatch).1 (parsePattern pattern) text,
        (getOrCompileRegex moka cache (regexSource R (parsePattern pattern).patternForMatch)
          (parsePattern pattern).patternForMatch).2) := by
  obtain ⟨hconfidence, hpattern⟩ := hneeds
  unfold matchesPattern regexSource
  simp only [if_neg (Nat.not_lt.mpr hconfidence), if_neg hpattern]
  split
  case isTrue hregex =>
    rcases getOrCompileRegex moka cache (parsePattern pattern).patternForMatch
      (parsePattern pattern).patternForMatch with ⟨_ | regex, after⟩
    · rfl
    · simp only [resultWith, Option.elim_some, evaluateRegex_eq, evaluatedTemplate, if_pos hregex]
      cases R.captures regex text <;> rfl
  case isFalse hregex =>
    rcases getOrCompileRegex moka cache (R.escape (parsePattern pattern).patternForMatch)
      (parsePattern pattern).patternForMatch with ⟨_ | regex, after⟩
    · rfl
    · simp only [resultWith, Option.elim_some, evaluatedTemplate, if_neg hregex]
      rfl

/-- A pattern that needs an expression is matched by it. -/
theorem patternResult_of_needsRegex {pattern : String} (hneeds : NeedsRegex (parsePattern pattern))
    (text : String) :
    patternResult R pattern text =
      resultWith (R.new ("(?i)" ++ regexSource R (parsePattern pattern).patternForMatch))
        (parsePattern pattern) text := by
  obtain ⟨hconfidence, hpattern⟩ := hneeds
  have hempty : pattern ≠ "" := by
    rintro rfl
    exact hpattern (by decide +kernel)
  unfold patternResult compilePattern regexSource resultWith evaluatedTemplate
  simp only [if_neg hempty, if_neg (Nat.not_lt.mpr hconfidence), if_neg hpattern]
  by_cases hregex : isRegexPattern (parsePattern pattern).patternForMatch = true
  · simp only [if_pos hregex]
    cases R.new ("(?i)" ++ (parsePattern pattern).patternForMatch) <;> rfl
  · simp only [if_neg hregex]
    cases R.new ("(?i)" ++ R.escape (parsePattern pattern).patternForMatch) <;> rfl

/-- A pattern that is not compiled does not go through the cache. -/
theorem matchesPattern_of_not_needsRegex {pattern : String}
    (hneeds : ¬ NeedsRegex (parsePattern pattern)) (text : String) :
    matchesPattern moka cache pattern text = (patternResult R pattern text, cache) := by
  unfold matchesPattern patternResult compilePattern
  by_cases hempty : pattern = ""
  · subst hempty
    rfl
  by_cases hconfidence : (parsePattern pattern).confidence < minPatternConfidence
  · simp only [if_pos hconfidence, if_neg hempty]
  · have hpattern : (parsePattern pattern).patternForMatch = "" := by
      by_contra hne
      exact hneeds ⟨Nat.not_lt.mp hconfidence, hne⟩
    simp only [if_neg hconfidence, if_neg hempty, if_pos hpattern, CompiledPattern.evaluate]

end Call

/-! ## All calls -/

section Run

variable {moka} {cache : RegexCache R}

/-- Every entry was compiled from its key as a pattern, or from a cookie name with that key. -/
def Explained (evaluations : List Evaluation) (cache : RegexCache R) : Prop :=
  ∀ key regex, cache.lookup key = some regex →
    R.new ("(?i)" ++ regexSource R key) = some regex ∨
      ∃ cookieName, .wildcardCookie cookieName ∈ evaluations ∧ isWildcard cookieName = true ∧
        cookieCacheKey cookieName = key ∧ wildcardCookieRegex R cookieName = some regex

/-- An explanation stays one after a further evaluation. -/
theorem Explained.later {evaluations : List Evaluation} (h : Explained evaluations cache)
    (evaluation : Evaluation) : Explained (evaluations ++ [evaluation]) cache := by
  intro key regex hlookup
  refine (h key regex hlookup).imp_right fun hcookie => ?_
  obtain ⟨cookieName, hmem, hrest⟩ := hcookie
  exact ⟨cookieName, List.mem_append_left _ hmem, hrest⟩

/-- A call keeps the cache explained when what it compiles explains its own entry. -/
theorem Explained.getOrCompileRegex {evaluations : List Evaluation}
    (h : Explained evaluations cache) {pattern cacheKey : String}
    (hown : ∀ regex, R.new ("(?i)" ++ pattern) = some regex →
      R.new ("(?i)" ++ regexSource R cacheKey) = some regex ∨
        ∃ cookieName, .wildcardCookie cookieName ∈ evaluations ∧ isWildcard cookieName = true ∧
          cookieCacheKey cookieName = cacheKey ∧ wildcardCookieRegex R cookieName = some regex) :
    Explained evaluations (getOrCompileRegex moka cache pattern cacheKey).2 := by
  intro key regex hlookup
  rw [lookup_getOrCompileRegex, getOrCompileRegex_fst] at hlookup
  by_cases hkey : key = cacheKey
  · subst hkey
    rw [if_pos rfl, Option.or_eq_some_iff] at hlookup
    rcases hlookup with hcached | ⟨-, hnew⟩
    · exact h key regex (moka.lookup_evict hcached)
    · exact hown regex hnew
  · rw [if_neg hkey] at hlookup
    exact h key regex (moka.lookup_evict hlookup)

/-- Each entry of the cache was compiled by an earlier evaluation. -/
theorem explained_cacheThrough (moka : Moka R) (evaluations : List Evaluation) :
    Explained evaluations (cacheThrough moka evaluations) := by
  induction evaluations using List.reverseRecOn with
  | nil =>
      intro key regex hlookup
      simp [cacheThrough] at hlookup
  | append_singleton evaluations evaluation ih =>
      have hlater := ih.later evaluation
      rw [cacheThrough, List.foldl_append, List.foldl_cons, List.foldl_nil, ← cacheThrough]
      cases evaluation with
      | matchesPattern pattern text =>
          rw [evaluateThrough]
          by_cases hneeds : NeedsRegex (parsePattern pattern)
          · rw [matchesPattern_of_needsRegex hneeds]
            exact hlater.getOrCompileRegex fun regex hnew => .inl hnew
          · rwa [matchesPattern_of_not_needsRegex hneeds]
      | wildcardCookie cookieName =>
          rw [evaluateThrough]
          split
          case isTrue hwildcard =>
            exact hlater.getOrCompileRegex fun regex hnew =>
              .inr ⟨cookieName, by simp, hwildcard, rfl, hnew⟩
          case isFalse => exact hlater

/-! ## An unlucky cache -/

open Classical in
/-- A cache that drops the entry of one key unless it is a given expression. -/
noncomputable def dropUnless (R : RegexCrate) (key : String) (regex : R.Regex) : Moka R where
  evict cache := if cache.lookup key = some regex then cache else cache.erase key
  lookup_evict {cache other found} hlookup := by
    split at hlookup
    · exact hlookup
    · by_cases hother : other = key
      · rw [hother, AList.lookup_erase] at hlookup
        cases hlookup
      · rwa [AList.lookup_erase_ne hother] at hlookup

variable {key : String} {regex : R.Regex}

/-- The eviction keeps the one entry or drops it. -/
theorem evict_dropUnless (cache : RegexCache R) :
    ((dropUnless R key regex).evict cache).lookup key = some regex ∨
      ((dropUnless R key regex).evict cache).lookup key = none := by
  unfold dropUnless
  by_cases hkept : cache.lookup key = some regex
  · exact .inl (by simp only [if_pos hkept]; exact hkept)
  · exact .inr (by simp only [if_neg hkept]; exact AList.lookup_erase key cache)

/-- A cache with the one entry is not touched. -/
theorem evict_of_kept (hkept : cache.lookup key = some regex) :
    (dropUnless R key regex).evict cache = cache :=
  if_pos hkept

/-- The one entry stays through further calls. -/
theorem getOrCompileRegex_of_kept (hkept : cache.lookup key = some regex)
    (pattern cacheKey : String) :
    (getOrCompileRegex (dropUnless R key regex) cache pattern cacheKey).2.lookup key =
      some regex := by
  rw [lookup_getOrCompileRegex, getOrCompileRegex_fst, evict_of_kept hkept]
  split
  case isTrue hkey => rw [← hkey, hkept, Option.some_or]
  case isFalse => exact hkept

/-- The expression stays in the cache. -/
theorem evaluateThrough_of_kept (hkept : cache.lookup key = some regex) (evaluation : Evaluation) :
    (evaluateThrough (dropUnless R key regex) cache evaluation).lookup key = some regex := by
  cases evaluation with
  | matchesPattern pattern text =>
      rw [evaluateThrough]
      by_cases hneeds : NeedsRegex (parsePattern pattern)
      · rw [matchesPattern_of_needsRegex hneeds]
        exact getOrCompileRegex_of_kept hkept _ _
      · rwa [matchesPattern_of_not_needsRegex hneeds]
  | wildcardCookie cookieName =>
      rw [evaluateThrough]
      split
      · exact getOrCompileRegex_of_kept hkept _ _
      · exact hkept

/-- Once a cookie name was looked up its expression is what the cache has under its key. -/
theorem cacheThrough_of_cookie {cookieName : String} (hwildcard : isWildcard cookieName = true)
    (hregex : wildcardCookieRegex R cookieName = some regex) {evaluations : List Evaluation}
    (hmem : .wildcardCookie cookieName ∈ evaluations) :
    (cacheThrough (dropUnless R (cookieCacheKey cookieName) regex) evaluations).lookup
      (cookieCacheKey cookieName) = some regex := by
  induction evaluations using List.reverseRecOn with
  | nil => cases hmem
  | append_singleton evaluations evaluation ih =>
      rw [cacheThrough, List.foldl_append, List.foldl_cons, List.foldl_nil, ← cacheThrough]
      rcases List.mem_append.mp hmem with hearlier | hlast
      · exact evaluateThrough_of_kept (ih hearlier) evaluation
      · obtain rfl := List.mem_singleton.mp hlast
        rw [evaluateThrough, if_pos hwildcard, cachedCookieRegex, lookup_getOrCompileRegex,
          if_pos rfl, getOrCompileRegex_fst, new_wildcardCookieSource, hregex]
        rcases evict_dropUnless
          (cacheThrough (dropUnless R (cookieCacheKey cookieName) regex) evaluations) with h | h
        · rw [h, Option.some_or]
        · rw [h, Option.none_or]

end Run

/-- After these calls a pattern gives what its compiled form gives, for every text and whatever the
cache drops on its own, exactly when every cookie name among them whose key is the pattern has an
expression that gives the same as the pattern. -/
theorem matches_pattern_agrees_iff (evaluations : List Evaluation) (pattern : String) :
    (∀ (moka : Moka R) (text : String),
        (matchesPattern moka (cacheThrough moka evaluations) pattern text).1 =
          patternResult R pattern text) ↔
      ∀ cookieName regex, .wildcardCookie cookieName ∈ evaluations →
        isWildcard cookieName = true → wildcardCookieRegex R cookieName = some regex →
        (parsePattern pattern).patternForMatch = cookieCacheKey cookieName →
        minPatternConfidence ≤ (parsePattern pattern).confidence →
        ∀ text, evaluateRegex R regex (parsePattern pattern).versionTemplate text =
          patternResult R pattern text := by
  constructor
  · intro hagree cookieName regex hmem hwildcard hregex hkey hconfidence text
    have hcached := cacheThrough_of_cookie hwildcard hregex hmem
    have hresult := hagree (dropUnless R (cookieCacheKey cookieName) regex) text
    have hstar := isRegexPattern_cookieCacheKey hwildcard
    have hneeds : NeedsRegex (parsePattern pattern) := by
      refine ⟨hconfidence, ?_⟩
      rw [hkey]
      intro hempty
      rw [hempty] at hstar
      exact absurd hstar (by decide)
    rw [matchesPattern_of_needsRegex hneeds, getOrCompileRegex_fst, hkey, evict_of_kept hcached,
      hcached, Option.some_or] at hresult
    rw [← hresult, resultWith, Option.elim_some, evaluatedTemplate, hkey, if_pos hstar]
  · intro hsame moka text
    by_cases hneeds : NeedsRegex (parsePattern pattern)
    · rw [matchesPattern_of_needsRegex hneeds, getOrCompileRegex_fst]
      cases hlookup : (moka.evict (cacheThrough moka evaluations)).lookup
          (parsePattern pattern).patternForMatch with
      | none => rw [Option.none_or, patternResult_of_needsRegex hneeds]
      | some regex =>
          rw [Option.some_or]
          rcases explained_cacheThrough moka evaluations _ regex (moka.lookup_evict hlookup) with
            hown | ⟨cookieName, hmem, hwildcard, hkey, hregex⟩
          · rw [← hown, patternResult_of_needsRegex hneeds]
          · have hcookie := hsame cookieName regex hmem hwildcard hregex hkey.symm hneeds.1 text
            have hstar := isRegexPattern_cookieCacheKey hwildcard
            rw [hkey] at hstar
            rw [← hcookie, resultWith, Option.elim_some, evaluatedTemplate, if_pos hstar]
    · rw [matchesPattern_of_not_needsRegex hneeds]

/-- The two expressions that `cookieCrate` knows. -/
inductive CookieRegex where
  | pattern
  | names

/-- The first match of `(?i)cookie:_ga_*`. -/
def findCookiePattern (text : String) : Option Captures :=
  let lead := "cookie:_ga".toList
  (text.toList.tails.find? fun tail => lead.isPrefixOf (tail.map Char.toLower)).map fun tail =>
    let repeated := (tail.drop lead.length).takeWhile (· = '_')
    [some (String.ofList (tail.take lead.length ++ repeated))]

/-- The match of `(?i)^_ga_.*$`. -/
def findCookieNames (text : String) : Option Captures :=
  if "_ga_".toList.isPrefixOf (text.toList.map Char.toLower) && !text.toList.contains '\n' then
    some [some text]
  else none

/-- The regex crate on two expressions and ASCII texts. -/
def cookieCrate : RegexCrate where
  Regex := CookieRegex
  escape text := String.ofList (text.toList.flatMap fun c =>
    if "\\.+*?()|[]\x7b\x7d^$#&-~".toList.contains c then ['\\', c] else [c])
  new source :=
    if source = "(?i)cookie:_ga_*" then some .pattern
    else if source = "(?i)^_ga_.*$" then some .names
    else none
  isMatch
    | .pattern, text => (findCookiePattern text).isSome
    | .names, text => (findCookieNames text).isSome
  captures
    | .pattern, text => findCookiePattern text
    | .names, text => findCookieNames text
  isMatch_eq := by rintro (_ | _) text <;> rfl

/-- The cookie name `_ga_*` and the pattern `cookie:_ga_*` have the same key. The pattern, tried
after the cookie name, does not match a text that it matches. -/
theorem matches_pattern_reads_cookie_regex :
    ¬ ∀ (R : RegexCrate) (moka : Moka R) (evaluations : List Evaluation) (pattern text : String),
      (matchesPattern moka (cacheThrough moka evaluations) pattern text).1 =
        patternResult R pattern text := by
  intro h
  have hresult := h cookieCrate { evict := id, lookup_evict := fun hlookup => hlookup }
    [.wildcardCookie "_ga_*"] "cookie:_ga_*" "cookie:_ga_"
  revert hresult
  decide +kernel

end DomainStatus.Fingerprint
