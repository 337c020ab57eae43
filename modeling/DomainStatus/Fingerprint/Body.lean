import DomainStatus.Fingerprint.Literals

/-!
# Body detection

The technologies that the body of a page shows, after `src/fingerprint/detection/body.rs` and the
matching of meta tags in `src/fingerprint/patterns/mod.rs`. The lower-case mapping of the standard
library is a parameter.
-/

namespace DomainStatus.Fingerprint

variable {R : RegexCrate}

/-- Takes the result of a meta pattern in, and stops once there is a version. -/
def absorbMetaHit (progress : Progress) (result : PatternMatchResult) : Progress × Bool :=
  absorbResult progress result

/-- Tries the patterns of a meta key on each value of a tag. -/
def compiledMetaValues (patterns : List (CompiledPattern R)) (metaValues : List String) :
    PatternMatchResult :=
  let trials := metaValues.flatMap fun metaValue => patterns.map fun pattern => (pattern, metaValue)
  let progress := (Rounds.forUntil
    (fun progress (trial : CompiledPattern R × String) =>
      absorbMetaHit progress (trial.1.evaluate trial.2))
    trials { matched := false, version := none }).1
  { matched := progress.matched, version := progress.version }

/-- The keys under which the tags for a meta key of a rule can be. -/
def routedMetaKeys (metaKeyLower : String) : List String :=
  if Text.startsWith metaKeyLower "property:" then
    ["property:" ++ (Text.stripPrefix metaKeyLower "property:").getD metaKeyLower]
  else if Text.startsWith metaKeyLower "http-equiv:" then
    ["http-equiv:" ++ (Text.stripPrefix metaKeyLower "http-equiv:").getD metaKeyLower]
  else
    ["name:" ++ metaKeyLower, "property:" ++ metaKeyLower, "http-equiv:" ++ metaKeyLower]

variable (toLowercase : String → String)

/-- The first tag for a meta key whose values match. -/
def routeMetaKey (metaKey : String) (metaTags : HashMap String (List String))
    (checkPatterns : List String → PatternMatchResult) : PatternMatchResult :=
  ((routedMetaKeys (toLowercase metaKey)).findSome? fun key =>
    ((metaTags.lookup key).map checkPatterns).filter PatternMatchResult.matched).getD .noMatch

/-- The patterns of a meta tag against the tags of a page. -/
def checkCompiledMetaPatterns (metaKey : String) (patterns : List (CompiledPattern R))
    (metaTags : HashMap String (List String)) : PatternMatchResult :=
  routeMetaKey toLowercase metaKey metaTags (compiledMetaValues patterns)

/-- Matches the compiled meta patterns of a technology until there is a version. -/
def matchMeta (techMeta : List (String × List (CompiledPattern R)))
    (metaTags : HashMap String (List String)) (progress : Progress) : Progress :=
  (Rounds.forUntil
    (fun progress (entry : String × List (CompiledPattern R)) =>
      absorbResult progress (checkCompiledMetaPatterns toLowercase entry.1 entry.2 metaTags))
    techMeta progress).1

variable (R)

/-- The meta patterns of a technology, compiled. -/
def preparedMeta (tech : Technology) : List (String × List (CompiledPattern R)) :=
  tech.metaTags.entries.map fun entry => (entry.1, entry.2.filterMap (compilePattern R))

variable {R}

/-- What the channels of a page show of one technology. -/
structure Verdict where
  matched : Bool
  version : Option String
  source : Option DetectionSource
  deriving DecidableEq

/-- Nothing has matched yet. -/
def Verdict.start : Verdict :=
  { matched := false, version := none, source := none }

/-- What a verdict says so far. -/
def Verdict.progress (verdict : Verdict) : Progress :=
  { matched := verdict.matched, version := verdict.version }

/-- Takes the progress of a channel in. Its source counts when it is the first that matched. -/
def Verdict.advance (verdict : Verdict) (source : DetectionSource) (progress : Progress) :
    Verdict where
  matched := progress.matched
  version := progress.version
  source :=
    if progress.matched && !verdict.matched && verdict.source.isNone then some source
    else verdict.source

/-- Matches one script source. A version ends the search through the script sources. -/
def matchScriptSource (index : LiteralIndex R) (techName : String) (verdict : Verdict)
    (script : String × HitSet) : Verdict × Bool :=
  let (progress, captured) :=
    index.matchChannel techName .script script.2 script.1 verdict.progress
  -- The caller leaves the loop here, before it looks at the earlier matches.
  if captured then
    ({ matched := progress.matched, version := progress.version,
       source := verdict.source.or (some .scriptSrc) }, true)
  else (verdict.advance .scriptSrc progress, false)

/-- The texts of a page that body detection looks at. -/
structure PageText where
  htmlBody : String
  scriptSources : List String
  url : String
  inlineScriptText : String

/-- The finding that a verdict amounts to. -/
def Verdict.result (verdict : Verdict) (techName : String) : Option MatchResult :=
  if verdict.matched then
    some { techName := techName, version := verdict.version, source := verdict.source.getD .html }
  else none

/-- Goes on with another channel unless there is a version already. -/
def unlessVersion {σ : Type} (version : σ → Option String) (next : σ → σ) (state : σ) : σ :=
  if (version state).isNone then next state else state

/-- What the page shows of one technology. -/
def checkTechnology (index : LiteralIndex R) (metaTags : HashMap String (List String))
    (page : PageText) (techName : String) (tech : Technology) : Verdict :=
  let htmlHits := index.scan .html page.htmlBody
  let scriptHits := page.scriptSources.map (index.scan .script)
  let urlHits := index.scan .url page.url
  let verdict := Verdict.start.advance .html
    (index.matchChannel techName .html htmlHits page.htmlBody Verdict.start.progress).1
  let verdict := unlessVersion Verdict.version
    (fun verdict => (Rounds.forUntil (matchScriptSource index techName)
      (page.scriptSources.zip scriptHits) verdict).1)
    verdict
  let verdict := unlessVersion Verdict.version
    (fun verdict =>
      if page.inlineScriptText = "" then verdict
      else
        verdict.advance .scripts
          (index.matchChannel techName .scripts (index.scan .scripts page.inlineScriptText)
            page.inlineScriptText verdict.progress).1)
    verdict
  let verdict := unlessVersion Verdict.version
    (fun verdict => verdict.advance .html
      (matchMeta toLowercase (preparedMeta R tech) metaTags verdict.progress))
    verdict
  unlessVersion Verdict.version
    (fun verdict => verdict.advance .url
      (index.matchChannel techName .url urlHits page.url verdict.progress).1)
    verdict

/-- The technology has no pattern for the body. -/
def hasNoBodyPatterns (tech : Technology) : Bool :=
  tech.html.isEmpty && tech.script.isEmpty && tech.scripts.isEmpty &&
    tech.metaTags.entries.isEmpty && tech.url.isEmpty

variable (R)

/-- The technologies that the body of a page shows. -/
def checkBodyWithRuleset (aho : AhoCorasick) (ruleset : FingerprintRuleset) (page : PageText)
    (metaTags : HashMap String (List String)) : List MatchResult :=
  let index := LiteralIndex.build R aho ruleset.technologies
  ruleset.technologies.entries.filterMap fun entry =>
    if hasNoBodyPatterns entry.2 then none
    else (checkTechnology toLowercase index metaTags page entry.1 entry.2).result entry.1

end DomainStatus.Fingerprint
