import DomainStatus.Fetch.SetCookie
import DomainStatus.Fingerprint.Body
import DomainStatus.Fingerprint.Detection
import DomainStatus.Security.UrlValidation

/-!
# Detection from a page

The signals of a page and the detection that they start: `detect_technologies_blocking` of
`src/fingerprint/detection/mod.rs`, with the matching of headers and cookies after
`signal_match.rs`, `headers.rs`, `cookies.rs` and `utils.rs`, and the cookies of a response after
`src/fetch/cookies.rs`. The order in which a hash map is iterated is that of its entries. The maps
that detection makes itself come in an order of `MapOrders`.
-/

namespace DomainStatus.Fingerprint

open Fetch

section Extract

variable (toLowercase : String → String)

/-- Adds a header to the map. Values of one header are joined. -/
def addHeader (headerMap : HashMap String String) (header : String × Option String) :
    HashMap String String :=
  match header.2 with
  | none => headerMap
  | some headerValue =>
      let headerName := toLowercase header.1
      let lower := toLowercase headerValue
      match headerMap.lookup headerName with
      | some existing => headerMap.insert headerName (existing ++ ", " ++ lower)
      | none => headerMap.insert headerName lower

/-- The headers by name, in lower case. -/
def normalizeHeadersToMap (headers : HeaderMap) : HashMap String String :=
  headers.foldl (addHeader toLowercase) ∅

/-- The pairs of a `Cookie` header. -/
def cookiePairs (cookieStr : String) : List (String × String) :=
  (Text.split [';'] cookieStr.toList).filterMap fun cookiePair =>
    (Text.splitOnce '=' (Text.trimChars cookiePair)).map fun (name, value) =>
      (toLowercase (String.ofList (Text.trimChars name)),
        toLowercase (String.ofList (Text.trimChars value)))

/-- The cookies of a response by name, in lower case. Only the first `Cookie` header is read. -/
def extractCookiesNameValueMap (headers : HeaderMap) : HashMap String String :=
  let setCookies := (parseAllSetCookies headers).filterMap fun parsed =>
    parsed.value.map fun value => (toLowercase parsed.name, toLowercase value)
  let cookieHeader := (headers.find? (·.1 = "cookie")).bind Prod.snd
  (setCookies ++ cookieHeader.elim [] (cookiePairs toLowercase)).foldl
    (fun cookies (name, value) => cookies.insert name value) ∅

end Extract

section Signals

variable {R : RegexCrate}

/-- The raw empty pattern: it is enough that the key is there. -/
def CompiledPattern.presenceOnly : CompiledPattern R → Bool
  | .any _ presenceOnly => presenceOnly
  | .regex _ _ => false

/-- Applies one compiled pattern, and tells whether to stop here. The loop over the headers does the
same with its patterns. -/
def considerCookie (compiled : CompiledPattern R) (cookieValue : String) (progress : Progress) :
    Progress × Bool :=
  if compiled.presenceOnly then ({ progress with matched := true }, true)
  else absorbResult progress (compiled.evaluate cookieValue)

variable (R)

/-- The compiled pattern of a key, if the pattern compiles. -/
def preparedPattern (patterns : HashMap String String) (key : String) :
    Option (CompiledPattern R) :=
  (patterns.lookup key).bind (compilePattern R)

variable (ruleset : FingerprintRuleset)

/-- The compiled pattern of a key with the value it is tried on. -/
def signalCandidate (values : HashMap String String) (skipKey : String → Bool) (tech : Technology)
    (key : String) : Option (CompiledPattern R × String) :=
  if skipKey key then none
  else (values.lookup key).bind fun value =>
    (preparedPattern R tech.headers key).map fun compiled => (compiled, value)

/-- Matches one key of a technology. -/
def matchSignalKey (values : HashMap String String) (skipKey : String → Bool) (tech : Technology)
    (progress : Progress) (key : String) : Progress × Bool :=
  match signalCandidate R values skipKey tech key with
  | none => (progress, false)
  | some (compiled, value) => considerCookie compiled value progress

/-- The technologies of which a key that `select` gives is among the values. -/
def matchStringMapSignal (values : HashMap String String)
    (select : Technology → HashMap String String) (skipKey : String → Bool)
    (source : DetectionSource) : List MatchResult :=
  ruleset.technologies.entries.filterMap fun entry =>
    if (select entry.2).entries.isEmpty then none
    else
      let progress := (Rounds.forUntil (matchSignalKey R values skipKey entry.2)
        (select entry.2).keys { matched := false, version := none }).1
      if progress.matched then
        some { techName := entry.1, version := progress.version, source := source }
      else none

/-- Lists of allowed hosts tell nothing about what serves the page. -/
def isCspAllowlistHeader (name : String) : Bool :=
  name = "content-security-policy" || name = "content-security-policy-report-only"

/-- The technologies that the headers show. The headers of the CSP are allowlists and show none. -/
def checkHeadersWithRuleset (headers : HashMap String String) : List MatchResult :=
  matchStringMapSignal R ruleset headers Technology.headers isCspAllowlistHeader .header

/-- The cookie name stands for all names that it is a pattern of. -/
def isWildcard (cookieName : String) : Bool :=
  cookieName.toList.contains '*'

/-- The regular expression of a cookie name with wildcards. The cache that it goes through holds
under its key nothing but this expression. -/
def wildcardCookieRegex (cookieName : String) : Option R.Regex :=
  let escaped := ".*".intercalate
    ((Text.split ['*'] cookieName.toList).map fun piece => R.escape (String.ofList piece))
  R.new ("(?i)" ++ ("^" ++ escaped ++ "$"))

/-- Tries a pattern on the cookies that a wildcard stands for. -/
def matchWildcardCookies (cookies : HashMap String String) (cookieRegex : R.Regex)
    (prepared : Option (CompiledPattern R)) (progress : Progress) : Progress × Bool :=
  Rounds.forUntil
    (fun progress (cookie : Sigma fun _ : String => String) =>
      if R.isMatch cookieRegex cookie.1 then
        prepared.elim (progress, false) fun compiled => considerCookie compiled cookie.2 progress
      else (progress, false))
    cookies.entries progress

/-- Matches one cookie name of a technology. -/
def matchCookieName (cookies : HashMap String String) (tech : Technology) (progress : Progress)
    (cookieName : String) : Progress × Bool :=
  if isWildcard cookieName then
    match wildcardCookieRegex R cookieName with
    | none => (progress, false)
    | some cookieRegex =>
        let progress := (matchWildcardCookies R cookies cookieRegex
          (preparedPattern R tech.cookies cookieName) progress).1
        -- A presence that ends the inner loop does not end the outer one.
        (progress, progress.matched && progress.version.isSome)
  else
    match cookies.lookup cookieName with
    | none => (progress, progress.matched && progress.version.isSome)
    | some cookieValue =>
        match preparedPattern R tech.cookies cookieName with
        | none => (progress, false)
        | some compiled =>
            let (progress, stop) := considerCookie compiled cookieValue progress
            (progress, stop || (progress.matched && progress.version.isSome))

/-- The technologies that the cookies show. -/
def checkCookiesWithRuleset (cookies : HashMap String String) : List MatchResult :=
  ruleset.technologies.entries.filterMap fun entry =>
    if entry.2.cookies.entries.isEmpty then none
    else
      let progress := (Rounds.forUntil (matchCookieName R cookies entry.2) entry.2.cookies.keys
        { matched := false, version := none }).1
      if progress.matched then
        some { techName := entry.1, version := progress.version, source := .cookie }
      else none

/-- The technologies of which a `js` key is the id of a script tag. -/
def checkScriptTagIds (scriptTagIds : Finset String) : List MatchResult :=
  if scriptTagIds = ∅ then []
  else
    ruleset.technologies.entries.filterMap fun entry =>
      if entry.2.js.entries.isEmpty then none
      else if entry.2.js.keys.any (· ∈ scriptTagIds) then
        some { techName := entry.1, version := none, source := .js }
      else none

end Signals

section Detect

/-- Orders of iteration for the maps that a detection makes itself. -/
structure MapOrders where
  cookies : HashMap String String → HashMap String String
  cookies_perm : ∀ map, (cookies map).entries.Perm map.entries
  detected : HashOrder

/-- What a detection is given of a page. -/
structure PageSignals where
  headers : HeaderMap
  metaTags : HashMap String (List String)
  page : PageText
  scriptTagIds : Finset String

/-- The automata of all channels can be built. The program panics when one of them cannot. -/
def LiteralIndex.builds {R : RegexCrate} (index : LiteralIndex R) : Bool :=
  [ChannelKind.html, .script, .scripts, .url].all fun kind =>
    (index.channels kind).needles.length ≤ AhoCorasick.patternLimit

variable (U : Security.UrlCrate)

/-- The page is one of the product site. -/
def isGithubDotComHost (url : String) : Bool :=
  (U.parse url).any fun parsed =>
    (U.hostStr parsed).any fun host =>
      let host := Text.toAsciiLowercase
        (String.ofList (Text.trimEndMatches (· = '.') host.toList))
      host = "github.com" || host = "www.github.com"

/-- The server header of the product site is that of GitHub Pages. -/
def dropGithubPagesOnGithubDotCom (techs : List DetectedTechnology) (url : String) :
    List DetectedTechnology :=
  if isGithubDotComHost U url then techs.filter (·.name ≠ "GitHub Pages") else techs

variable (R : RegexCrate) (aho : AhoCorasick) (toLowercase : String → String)

/-- The signals of the page that show a technology, in the order in which they are merged. -/
def observedSignals (orders : MapOrders) (ruleset : FingerprintRuleset) (signals : PageSignals) :
    List MatchResult :=
  let cookies := orders.cookies (extractCookiesNameValueMap toLowercase signals.headers)
  checkHeadersWithRuleset R ruleset (normalizeHeadersToMap toLowercase signals.headers) ++
    (if cookies.entries.isEmpty then [] else checkCookiesWithRuleset R ruleset cookies) ++
    checkBodyWithRuleset R toLowercase aho ruleset signals.page signals.metaTags ++
    checkScriptTagIds ruleset signals.scriptTagIds

/-- The technologies of a page, or `none` when the literal index cannot be built. -/
def detectTechnologiesBlocking (orders : MapOrders) (ruleset : FingerprintRuleset)
    (signals : PageSignals) : Option (List DetectedTechnology) :=
  if (LiteralIndex.build R aho ruleset.technologies).builds then
    some (dropGithubPagesOnGithubDotCom U
      (detectTechnologies ruleset orders.detected
        (observedSignals R aho toLowercase orders ruleset signals))
      signals.page.url)
  else none

end Detect

end DomainStatus.Fingerprint
