import DomainStatus.Fetch.Http
import DomainStatus.Lib.Text

/-!
# External scripts

The optional fetch of a page's first-party scripts, after `src/fetch/external_scripts.rs` and
`root_domain` of `src/domain/mod.rs`. The public suffix list is the crate `psl`, taken as a
parameter. The scan for secrets and the decoding of the bodies come after the requests and are left
out: the result holds the bytes of each fetched script.
-/

namespace DomainStatus.Fetch

open Security

/-- What the program uses of the crate `psl`. -/
structure Psl where
  domainStr : String → Option String
  suffixStr : String → Option String

/-- The registrable domain of a host name. A public suffix stands for itself. -/
def rootDomain (psl : Psl) (fqdn : String) : Option String :=
  (psl.domainStr fqdn).or (if (psl.suffixStr fqdn).isSome then some fqdn else none)

/-- The most scripts that are fetched for a page. -/
def maxScriptFetchPerPage : ℕ := 10

/-- The most bytes that are read of a script. -/
def maxScriptBodyBytes : ℕ := 1024 * 1024

/-- The hosts of scripts that are not worth a fetch. -/
def knownThirdPartyScriptHostSuffixes : List String :=
  ["js.stripe.com", "consent.cookiebot.com", "assets.squarespace.com",
    "www.google-analytics.com", "www.googletagmanager.com", "connect.facebook.net",
    "maps.googleapis.com", "cdn.jsdelivr.net", "cdnjs.cloudflare.com", "unpkg.com",
    "ajax.googleapis.com", "fast.wistia.com", "hcaptcha.com", "www.google.com",
    "imasdk.googleapis.com", "static.cloudflareinsights.com", "cdn.weglot.com"]

/-- The scripts that were fetched, with the counts that the program reports about them. -/
structure ExternalScriptScanResult where
  bodies : List (String × List UInt8)
  eligible : ℕ
  scanned : ℕ
  deriving DecidableEq

variable (U : UrlCrate) (psl : Psl)

/-- The host of a URL in lower case. -/
def urlHost (url : String) : Option String :=
  ((U.parse url).bind U.hostStr).map toLowercase

/-- The host is one of the listed hosts or a subdomain of one. -/
def isKnownThirdPartyScriptHost (host : String) : Bool :=
  let host := Text.toAsciiLowercase
    (String.ofList (Text.trimEndMatches (fun c => c == '.') host.toList))
  knownThirdPartyScriptHostSuffixes.any fun suffix =>
    host == suffix || (Text.stripSuffix host suffix).any fun lead => Text.endsWith lead "."

/-- The script comes from the page's own host or registrable domain. -/
def isFirstPartyScript (pageUrl scriptUrl : String) : Bool :=
  match urlHost U pageUrl, urlHost U scriptUrl with
  | some pageHost, some scriptHost =>
      if isKnownThirdPartyScriptHost scriptHost then false
      else if pageHost == scriptHost then true
      else
        match rootDomain psl pageHost, rootDomain psl scriptHost with
        | some pageRoot, some scriptRoot => Text.eqIgnoreAsciiCase pageRoot scriptRoot
        | _, _ => false
  | _, _ => false

/-- The URL of a script source: parsed as it stands, else joined to the page's URL. -/
def resolveScriptUrl (pageUrl src : String) : Option String :=
  let trimmed := Text.trim src
  if trimmed = "" then none
  else
    match U.parse trimmed with
    | some url => some (U.toString url)
    | none => ((U.parse pageUrl).bind fun base => U.join base trimmed).map U.toString

/-- The URLs that a page's sources make eligible, in order. -/
def eligibleScripts (pageUrl : String) (scriptSources : List String) (allowLocalhost : Bool) :
    List String :=
  (((scriptSources.filterMap (resolveScriptUrl U pageUrl)).filter fun url =>
      Text.startsWith url "http://" || Text.startsWith url "https://").filter fun url =>
      allowLocalhost || (validateUrlSafe U url).toBool).filter fun url =>
      isFirstPartyScript U psl pageUrl url

/-- One script, cut off at the size limit. -/
def fetchScriptBody (net : Network) (number : ℕ) (url : String) :
    Requested (Option (List UInt8)) :=
  let sent := send U net number url
  ⟨sent.requests, sent.result.bind fun response =>
    if response.status.isSuccess then
      match streamBytesWithLimit maxScriptBodyBytes .truncate [] response.chunks with
      | .error _ => none
      | .ok streamed => some streamed.intoBytes
    else none⟩

/-- Fetches the first eligible scripts. The requests run in parallel: script `number` of the list
is request `number` of the network. -/
def scanExternalScripts (net : Network) (pageUrl : String) (scriptSources : List String)
    (allowLocalhost : Bool) : Requested ExternalScriptScanResult :=
  let eligible := eligibleScripts U psl pageUrl scriptSources allowLocalhost
  let fetched := (eligible.take maxScriptFetchPerPage).zipIdx.map fun (url, number) =>
    (url, fetchScriptBody U net number url)
  let bodies := fetched.filterMap fun (url, script) => script.result.map fun body => (url, body)
  ⟨fetched.flatMap fun (_, script) => script.requests,
    { bodies
      eligible := min eligible.length (2 ^ 32 - 1)
      scanned := min bodies.length (2 ^ 32 - 1) }⟩

variable {U psl}

/-- Every script that is requested is eligible. -/
theorem mem_eligible_of_requested {net : Network} {pageUrl url : String}
    {scriptSources : List String} {allowLocalhost : Bool}
    (h : url ∈ (scanExternalScripts U psl net pageUrl scriptSources allowLocalhost).requests) :
    url ∈ eligibleScripts U psl pageUrl scriptSources allowLocalhost := by
  simp only [scanExternalScripts, List.mem_flatMap, List.mem_map] at h
  obtain ⟨_, ⟨⟨script, number⟩, hmem, rfl⟩, hurl⟩ := h
  have hscript : url = script := by
    simp only [fetchScriptBody, send] at hurl
    split at hurl
    · exact List.mem_singleton.mp hurl
    · cases hurl
  subst hscript
  exact List.mem_of_mem_take (List.fst_mem_of_mem_zipIdx hmem)

/-- Unless the local host is allowed, every requested script passed the check. -/
theorem scan_external_scripts_safe {net : Network} {pageUrl url : String}
    {scriptSources : List String}
    (h : url ∈ (scanExternalScripts U psl net pageUrl scriptSources false).requests) :
    Safe U url := by
  have heligible := mem_eligible_of_requested h
  simp only [eligibleScripts, List.mem_filter, Bool.false_or] at heligible
  obtain ⟨⟨-, hvalid⟩, -⟩ := heligible
  cases hresult : validateUrlSafe U url with
  | error reason => simp [hresult, Except.toBool] at hvalid
  | ok => exact hresult

end DomainStatus.Fetch
