import DomainStatus.Fingerprint.Models
import DomainStatus.Fingerprint.Version

/-!
# Pattern matching

How a pattern of a rule is matched against a text, after `src/fingerprint/patterns/mod.rs`, and the
patterns that are compiled when a ruleset is loaded, after `compiled.rs`. The process-wide cache of
compiled patterns is passed along. Read `matchesPattern_eq` first: what the cache holds does not
show as long as only `matchesPattern` fills it.
-/

namespace DomainStatus.Fingerprint

/-- The least confidence of a pattern that is tried. -/
def minPatternConfidence : ℕ := 50

/-- Whether a pattern matches, and the version it captures. -/
@[ext] structure PatternMatchResult where
  matched : Bool
  version : Option String
  deriving DecidableEq

/-- Nothing was found. -/
def PatternMatchResult.noMatch : PatternMatchResult :=
  { matched := false, version := none }

/-- The text has a character that only regular expressions use. -/
def isRegexPattern (pattern : String) : Bool :=
  pattern.toList.head? = some '^' ||
    ['$', '\\', '[', '(', '*', '+', '?'].any fun c => pattern.toList.contains c

/-- An empty pattern matches every text. A template that names no group is the version. -/
def handleEmptyPattern (versionTemplate : Option String) : PatternMatchResult :=
  { matched := true
    version := versionTemplate.bind fun template =>
      let template := Text.trimChars template.toList
      if template = [] then none
      else if !template.contains '\\' || !template.any Char.isDigit then
        some (String.ofList template)
      else none }

variable (R : RegexCrate)

/-- The process-wide cache of the crate `moka`. -/
abbrev RegexCache :=
  HashMap String R.Regex

/-- What the cache drops on its own. It never makes an entry up. -/
structure Moka where
  evict : RegexCache R → RegexCache R
  lookup_evict : ∀ {cache key regex},
    (evict cache).lookup key = some regex → cache.lookup key = some regex

variable {R} (moka : Moka R) (cache : RegexCache R)

/-- The compiled pattern of the cache, or a new one that goes into the cache. -/
def getOrCompileRegex (pattern cacheKey : String) : Option R.Regex × RegexCache R :=
  -- An entry may have been dropped at any time since the last call.
  let cache := moka.evict cache
  match cache.lookup cacheKey with
  | some cached => (some cached, cache)
  | none =>
      match R.new ("(?i)" ++ pattern) with
      | some regex => (some regex, cache.insert cacheKey regex)
      | none => (none, cache)

/-- Matches a raw pattern against a text. -/
def matchesPattern (pattern text : String) : PatternMatchResult × RegexCache R :=
  let parsed := parsePattern pattern
  if parsed.confidence < minPatternConfidence then (.noMatch, cache)
  else if parsed.patternForMatch = "" then (handleEmptyPattern parsed.versionTemplate, cache)
  else if isRegexPattern parsed.patternForMatch then
    match getOrCompileRegex moka cache parsed.patternForMatch parsed.patternForMatch with
    | (none, cache) => (.noMatch, cache)
    | (some regex, cache) =>
        match R.captures regex text with
        | some captures =>
            -- The template was cut from its key, which the evaluation expects in front.
            ({ matched := true
               version := parsed.versionTemplate.bind fun template =>
                 extractVersionFromTemplate ("version:" ++ template) captures }, cache)
        | none => (.noMatch, cache)
  else
    match getOrCompileRegex moka cache (R.escape parsed.patternForMatch)
        parsed.patternForMatch with
    | (none, cache) => (.noMatch, cache)
    | (some regex, cache) => ({ matched := R.isMatch regex text, version := none }, cache)

variable (R)

/-- One pattern, parsed and compiled. -/
inductive CompiledPattern where
  | any (versionTemplate : Option String) (presenceOnly : Bool)
  | regex (regex : R.Regex) (versionTemplate : Option String)

/-- Matches a compiled regular expression. The groups are captured only for a version. -/
def evaluateRegex (regex : R.Regex) (versionTemplate : Option String) (text : String) :
    PatternMatchResult :=
  match versionTemplate with
  | none => { matched := R.isMatch regex text, version := none }
  | some template =>
      match R.captures regex text with
      | some captures =>
          { matched := true
            version := extractVersionFromTemplate ("version:" ++ template) captures }
      | none => .noMatch

variable {R} in
/-- What a compiled pattern finds in a text. -/
def CompiledPattern.evaluate (pattern : CompiledPattern R) (text : String) : PatternMatchResult :=
  match pattern with
  | .any versionTemplate _ => handleEmptyPattern versionTemplate
  | .regex compiled versionTemplate => evaluateRegex R compiled versionTemplate text

/-- Compiles a pattern. One that can never match is dropped. -/
def compilePattern (pattern : String) : Option (CompiledPattern R) :=
  if pattern = "" then some (.any none true)
  else
    let parsed := parsePattern pattern
    if parsed.confidence < minPatternConfidence then none
    else if parsed.patternForMatch = "" then some (.any parsed.versionTemplate false)
    else if isRegexPattern parsed.patternForMatch then
      (R.new ("(?i)" ++ parsed.patternForMatch)).map (.regex · parsed.versionTemplate)
    else (R.new ("(?i)" ++ R.escape parsed.patternForMatch)).map (.regex · none)

/-- What a pattern says about a text: the result of its compiled form, or no match when it has
none. -/
def patternResult (pattern text : String) : PatternMatchResult :=
  match compilePattern R pattern with
  | some compiled => compiled.evaluate text
  | none => .noMatch

/-- The text that is compiled for a pattern. -/
def regexSource (pattern : String) : String :=
  if isRegexPattern pattern then pattern else R.escape pattern

variable {R}

/-- Every entry is the compiled form of its own key. -/
def CacheCoherent (cache : RegexCache R) : Prop :=
  ∀ key regex, cache.lookup key = some regex → R.new ("(?i)" ++ regexSource R key) = some regex

variable {moka cache}

/-- The empty cache is coherent. -/
theorem cacheCoherent_empty : CacheCoherent (∅ : RegexCache R) := by
  intro key regex h
  simp at h

/-- Eviction keeps the cache coherent. -/
theorem CacheCoherent.evict (hcache : CacheCoherent cache) : CacheCoherent (moka.evict cache) :=
  fun key regex h => hcache key regex (moka.lookup_evict h)

/-- With a coherent cache the regular expression is the one that the pattern compiles to. -/
theorem getOrCompileRegex_eq (hcache : CacheCoherent cache) (pattern : String) :
    (getOrCompileRegex moka cache (regexSource R pattern) pattern).1 =
        R.new ("(?i)" ++ regexSource R pattern) ∧
      CacheCoherent (getOrCompileRegex moka cache (regexSource R pattern) pattern).2 := by
  have hevict : CacheCoherent (moka.evict cache) := hcache.evict
  unfold getOrCompileRegex
  cases hlookup : (moka.evict cache).lookup pattern with
  | some cached => simpa [hlookup, hevict pattern cached hlookup] using hevict
  | none =>
      cases hnew : R.new ("(?i)" ++ regexSource R pattern) with
      | none => simpa [hlookup, hnew] using hevict
      | some regex =>
          refine ⟨by simp [hlookup], ?_⟩
          -- The new entry is compiled from its key, and all others were there before.
          intro key found hfound
          simp only [hlookup] at hfound
          rcases lookup_insert_inv hfound with ⟨rfl, rfl⟩ | ⟨-, hbefore⟩
          · exact hnew
          · exact hevict key found hbefore

/-- Matching without groups gives the same as matching with them. -/
theorem evaluateRegex_eq (regex : R.Regex) (versionTemplate : Option String) (text : String) :
    evaluateRegex R regex versionTemplate text =
      match R.captures regex text with
      | some captures =>
          { matched := true
            version := versionTemplate.bind fun template =>
              extractVersionFromTemplate ("version:" ++ template) captures }
      | none => .noMatch := by
  cases versionTemplate with
  | some template => rfl
  | none =>
      rw [evaluateRegex, R.isMatch_eq]
      cases R.captures regex text with
      | none => rfl
      | some captures => rfl

/-- A version is captured only with a match. -/
theorem version_patternResult_of_not_matched {pattern text : String}
    (hmatched : (patternResult R pattern text).matched = false) :
    (patternResult R pattern text).version = none := by
  revert hmatched
  unfold patternResult
  cases compilePattern R pattern with
  | none => exact fun _ => rfl
  | some compiled =>
      cases compiled with
      | any versionTemplate presenceOnly => exact fun hmatched => by cases hmatched
      | regex regex versionTemplate =>
          simp only [CompiledPattern.evaluate, evaluateRegex_eq]
          cases R.captures regex text with
          | none => exact fun _ => rfl
          | some captures => exact fun hmatched => by cases hmatched

/-- The result of a match is that of the compiled pattern, whatever coherent cache is used. -/
theorem matchesPattern_eq (hcache : CacheCoherent cache) (pattern text : String) :
    (matchesPattern moka cache pattern text).1 = patternResult R pattern text ∧
      CacheCoherent (matchesPattern moka cache pattern text).2 := by
  obtain ⟨hregex, hcoherent⟩ :=
    @getOrCompileRegex_eq R moka cache hcache (parsePattern pattern).patternForMatch
  unfold matchesPattern patternResult compilePattern
  by_cases hempty : pattern = ""
  · subst hempty
    exact ⟨rfl, hcache⟩
  by_cases hconfidence : (parsePattern pattern).confidence < minPatternConfidence
  · simpa [hempty, hconfidence] using hcache
  by_cases hpattern : (parsePattern pattern).patternForMatch = ""
  · simpa [hempty, hconfidence, hpattern, CompiledPattern.evaluate] using hcache
  simp only [hempty, hconfidence, hpattern, if_false]
  by_cases hregexLike : isRegexPattern (parsePattern pattern).patternForMatch
  · rw [regexSource, if_pos hregexLike] at hregex hcoherent
    simp only [hregexLike, if_true]
    cases hget : getOrCompileRegex moka cache (parsePattern pattern).patternForMatch
        (parsePattern pattern).patternForMatch with
    | mk found after =>
        rw [hget] at hregex hcoherent
        rw [← hregex]
        cases found with
        | none => exact ⟨rfl, hcoherent⟩
        | some regex =>
            simp only [Option.map_some, CompiledPattern.evaluate, evaluateRegex_eq]
            cases R.captures regex text with
            | none => exact ⟨rfl, hcoherent⟩
            | some captures => exact ⟨rfl, hcoherent⟩
  · rw [regexSource, if_neg hregexLike] at hregex hcoherent
    simp only [hregexLike]
    cases hget : getOrCompileRegex moka cache (R.escape (parsePattern pattern).patternForMatch)
        (parsePattern pattern).patternForMatch with
    | mk found after =>
        rw [hget] at hregex hcoherent
        rw [← hregex]
        cases found with
        | none => exact ⟨rfl, hcoherent⟩
        | some regex => exact ⟨rfl, hcoherent⟩

end DomainStatus.Fingerprint
