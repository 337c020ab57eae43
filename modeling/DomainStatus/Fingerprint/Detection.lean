import DomainStatus.Fingerprint.Models
import DomainStatus.Lib.Rounds
import Mathlib.Data.Finset.Image

/-!
# From observed signals to detected technologies

What detection does with the technologies that the signals show, after
`src/fingerprint/detection/mod.rs` and `matching.rs`: it merges them into a map, adds what they
imply, and drops what is excluded, lacks a requirement or is no part of a serving stack. The order
in which a hash map is iterated is a parameter.
-/

namespace DomainStatus.Fingerprint

/-- What is known of a technology while detection runs. -/
structure TechInfo where
  version : Option String
  isImplied : Bool
  source : DetectionSource
  deriving DecidableEq

/-- A detected technology as it is stored. -/
structure DetectedTechnology where
  name : String
  version : Option String
  category : Option String
  isImplied : Bool
  detectionSource : Option String
  deriving DecidableEq

/-- An order of iteration for every map of detected technologies. -/
structure HashOrder where
  keys : HashMap String TechInfo → List String
  perm : ∀ detected, (keys detected).Perm detected.keys

/-- `char::is_ascii_hexdigit`. -/
def isAsciiHexdigit (c : Char) : Bool :=
  c.isDigit || ('a' ≤ c && c ≤ 'f') || ('A' ≤ c && c ≤ 'F')

/-- Drops a version that is blank or reads like the digest of a file. -/
def sanitizeTechnologyVersion (version : Option String) : Option String :=
  version.filter fun version =>
    let trimmed := Text.trim version
    trimmed ≠ "" && !(7 ≤ trimmed.utf8ByteSize && trimmed.toList.all isAsciiHexdigit)

/-- Merges an observed technology. It is implied no longer, and a version that is known stays. -/
def mergeObserved (detected : HashMap String TechInfo) (result : MatchResult) :
    HashMap String TechInfo :=
  let version := sanitizeTechnologyVersion result.version
  match detected.lookup result.techName with
  | some existing =>
      -- An entry that was only implied takes over the source of the observation.
      detected.insert result.techName
        { version := existing.version.or version, isImplied := false,
          source := if existing.isImplied then result.source else existing.source }
  | none =>
      detected.insert result.techName
        { version := version, isImplied := false, source := result.source }

variable (ruleset : FingerprintRuleset)

/-- The references that a technology of the ruleset lists under `implies`. -/
def impliedBy (techName : String) : List (String × Option String) :=
  match ruleset.technologies.lookup techName with
  | some tech => tech.implies.map parseTechnologyReference
  | none => []

/-- Adds one implied technology, and tells whether it is new. Names outside the ruleset are passed
over. -/
def addImplied (state : HashMap String TechInfo × Bool) (implied : String × Option String) :
    HashMap String TechInfo × Bool :=
  let (detected, addedAny) := state
  if implied.1 ∉ ruleset.technologies then state
  else
    let version := sanitizeTechnologyVersion implied.2
    match detected.lookup implied.1 with
    | some existing =>
        -- A version that is filled in here does not ask for another round.
        (detected.insert implied.1 { existing with version := existing.version.or version },
          addedAny)
    | none =>
        (detected.insert implied.1
          { version := version, isImplied := true, source := .implied }, true)

/-- The most rounds in which implied technologies are added. -/
def maxImpliesDepth : ℕ := 10

/-- One round of `expandImplies`, over the technologies known when it starts. -/
def impliesRound (order : HashOrder) (detected : HashMap String TechInfo) :
    HashMap String TechInfo × Bool :=
  ((order.keys detected).flatMap (impliedBy ruleset)).foldl (addImplied ruleset) (detected, false)

/-- Adds what the detected technologies imply, for at most `maxImpliesDepth` rounds. -/
def expandImplies (order : HashOrder) (detected : HashMap String TechInfo) :
    HashMap String TechInfo :=
  Rounds.loop (impliesRound ruleset order) maxImpliesDepth detected

/-- The technology lists the other one under `excludes`. -/
def excludesTechnology (techName excluded : String) : Bool :=
  techName != excluded && (ruleset.technologies.lookup techName).any fun tech =>
    tech.excludes.any fun reference => (parseTechnologyReference reference).1 == excluded

/-- Drops every technology that another detected one excludes. -/
def applyTechnologyExclusions (detected : Finset String) : Finset String :=
  detected.filter fun techName => ∀ other ∈ detected, ¬ excludesTechnology ruleset other techName

/-- The other technology has a category that the technology requires. -/
def providesCategory (tech : Technology) (other : String) : Bool :=
  (ruleset.technologies.lookup other).any fun otherTech =>
    otherTech.cats.any fun cat => tech.requiresCategory.contains cat

/-- All that the technology requires is detected. -/
def technologyRequiresSatisfied (detected : Finset String) (name : String) : Bool :=
  (ruleset.technologies.lookup name).all fun tech =>
    (tech.requires.all fun reference => (parseTechnologyReference reference).1 ∈ detected) &&
      (tech.requiresCategory.isEmpty ||
        decide (∃ other ∈ detected, other ≠ name ∧ providesCategory ruleset tech other))

/-- The most rounds in which technologies without their requirements are removed. -/
def maxRequiresDepth : ℕ := 10

/-- One round of `applyTechnologyRequires`, which asks for another one when it drops something. -/
def requiresRound (remaining : Finset String) : Finset String × Bool :=
  (remaining.filter fun name => technologyRequiresSatisfied ruleset remaining name,
    decide (∃ name ∈ remaining, ¬ technologyRequiresSatisfied ruleset remaining name))

/-- Drops technologies that lack a requirement, for at most `maxRequiresDepth` rounds. -/
def applyTechnologyRequires (detected : Finset String) : Finset String :=
  Rounds.loop (requiresRound ruleset) maxRequiresDepth detected

/-- One of the technology's category numbers has this name. -/
def technologyInCategory (name category : String) : Bool :=
  (ruleset.technologies.lookup name).any fun tech =>
    tech.cats.any fun id =>
      (ruleset.categories.lookup id).any fun c => Text.eqIgnoreAsciiCase c category

/-- Transport flags and certificate authorities, which are no part of the stack. -/
def isDenylistedTechnology (name : String) : Bool :=
  Text.eqIgnoreAsciiCase name "HTTP/2" || Text.eqIgnoreAsciiCase name "HTTP/3" ||
    Text.eqIgnoreAsciiCase name "HSTS" ||
    technologyInCategory ruleset name "SSL/TLS certificate authorities"

/-- The name of the technology's first category. -/
def getTechnologyCategory (techName : String) : Option String := do
  let tech ← ruleset.technologies.lookup techName
  let firstCatId ← tech.cats.head?
  ruleset.categories.lookup firstCatId

/-- The technologies that are left after exclusions, requirements and the denylist. -/
def finalizeDetections (order : HashOrder) (detected : HashMap String TechInfo) :
    List DetectedTechnology :=
  let keptNames := applyTechnologyRequires ruleset
    (applyTechnologyExclusions ruleset detected.keys.toFinset)
  ((order.keys detected).filter (· ∈ keptNames)).filterMap fun name =>
    (detected.lookup name).bind fun info =>
      if isDenylistedTechnology ruleset name then none
      else some
        { name := name, version := info.version, category := getTechnologyCategory ruleset name,
          isImplied := info.isImplied, detectionSource := some info.source.asStr }

/-- The source of a stored detection. -/
def parseDetectionSource (raw : String) : Option DetectionSource :=
  if raw = "header" then some .header
  else if raw = "cookie" then some .cookie
  else if raw = "html" then some .html
  else if raw = "scriptSrc" then some .scriptSrc
  else if raw = "scripts" then some .scripts
  else if raw = "url" then some .url
  else if raw = "js" then some .js
  else if raw = "ns" then some .ns
  else if raw = "cname" then some .cname
  else if raw = "cert" then some .cert
  else if raw = "implied" then some .implied
  else none

/-- The map entry of a detected technology. A source text that is not known is read as HTML. -/
def restoreDetected (detected : HashMap String TechInfo) (tech : DetectedTechnology) :
    HashMap String TechInfo :=
  detected.insert tech.name
    { version := tech.version, isImplied := tech.isImplied,
      source := (tech.detectionSource.bind parseDetectionSource).getD
        (if tech.isImplied then .implied else .html) }

/-- The map that a list of detected technologies came from. -/
def detectedToMap (techs : List DetectedTechnology) : HashMap String TechInfo :=
  techs.foldl restoreDetected ∅

/-- The end of `detect_technologies_blocking`: merges the signals of the page, adds what they imply
and finalises the result. -/
def detectTechnologies (order : HashOrder) (observed : List MatchResult) :
    List DetectedTechnology :=
  finalizeDetections ruleset order
    (expandImplies ruleset order (observed.foldl mergeObserved ∅))

/-- The common part of `supplement_technologies_with_dns_cert` and
`supplement_technologies_with_script_text`: merges later signals into a finished detection. -/
def supplementTechnologies (order : HashOrder) (alreadyDetected : List DetectedTechnology)
    (supplemental : List MatchResult) : List DetectedTechnology :=
  if supplemental = [] then alreadyDetected
  else
    finalizeDetections ruleset order
      (expandImplies ruleset order
        (supplemental.foldl mergeObserved (detectedToMap alreadyDetected)))

end DomainStatus.Fingerprint
