import DomainStatus.Fetch.ExternalScripts
import DomainStatus.Fetch.Favicon

/-!
# Requests that a page causes

The third fetcher, `fetch_well_known` of `src/fetch/well_known.rs`, and all requests that a fetched
page causes: its favicon, its external scripts, and the well-known files of its origin. The parsed
fields of the well-known files are read off the body and are left out.

The scripts and the well-known files are always safe to request. `page_requests_confined_iff` says
that the whole page is exactly if the URL of its favicon is, which nothing checks.
-/

namespace DomainStatus.Fetch

open Security

/-- `MAX_WELL_KNOWN_BODY`. -/
def maxWellKnownBody : ℕ := 64 * 1024

/-- The fetched files with their status, and the one of `security.txt` with its URL. -/
structure WellKnownData where
  securityTxt : Option (String × ℕ × List UInt8)
  robotsTxt : Option (ℕ × List UInt8)
  deriving DecidableEq

/-- The text of these bytes, decoded with replacement characters, is blank. A replacement character
is not white space. -/
def isBlankText (bytes : List UInt8) : Bool :=
  match String.fromUTF8? ⟨bytes.toArray⟩ with
  | some text => Text.trim text == ""
  | none => false

variable (U : UrlCrate)

/-- The text of the origin of a URL of the web. -/
def originRoot (url : U.Url) : Option String :=
  if U.scheme url ≠ "http" ∧ U.scheme url ≠ "https" then none
  else (U.hostStr url).map fun host => originText (U.scheme url) host (U.port url)

/-- `response.bytes()`: the whole body, or nothing if a read fails. -/
def responseBytes (response : Response) : Option (List UInt8) :=
  response.chunks.foldr (fun chunk rest => chunk.bind fun bytes => rest.map (bytes ++ ·)) (some [])

/-- The status of an answer, and its body up to the limit. -/
def fetchText (net : Network) (number : ℕ) (url : String) :
    Requested (Option (ℕ × List UInt8)) :=
  let sent := send U net number url
  ⟨sent.requests, sent.result.bind fun response =>
    (responseBytes response).map fun bytes =>
      (response.status.code, bytes.take maxWellKnownBody)⟩

/-- One `security.txt`: a success with a text that is not blank. -/
def fetchSecurityTxtOne (net : Network) (number : ℕ) (url : String) :
    Requested (Option (String × ℕ × List UInt8)) :=
  let text := fetchText U net number url
  ⟨text.requests, text.result.bind fun (status, body) =>
    if ¬ (200 ≤ status ∧ status < 300) ∨ isBlankText body then none
    else some (url, status, body)⟩

/-- The first URL of the list that has a `security.txt`. The later ones are not requested. -/
def fetchSecurityTxt (net : Network) :
    (number : ℕ) → List String → Requested (Option (String × ℕ × List UInt8))
  | _, [] => ⟨[], none⟩
  | number, url :: urls =>
      let first := fetchSecurityTxtOne U net number url
      match first.result with
      | some data => ⟨first.requests, some data⟩
      | none =>
          let rest := fetchSecurityTxt net (number + 1) urls
          ⟨first.requests ++ rest.requests, rest.result⟩

/-- A `robots.txt` that is there. -/
def fetchRobotsTxt (net : Network) (number : ℕ) (url : String) :
    Requested (Option (ℕ × List UInt8)) :=
  let text := fetchText U net number url
  ⟨text.requests, text.result.bind fun (status, body) =>
    if status = 404 then none else some (status, body)⟩

/-- The well-known files of the origin of `finalUrl`. -/
def fetchWellKnown (net : Network) (finalUrl : String) : Requested WellKnownData :=
  match (U.parse finalUrl).bind (originRoot U) with
  | none => ⟨[], ⟨none, none⟩⟩
  | some origin =>
      let securityTxt := fetchSecurityTxt U net 0
        [origin ++ "/.well-known/security.txt", origin ++ "/security.txt"]
      let robotsTxt := fetchRobotsTxt U net 2 (origin ++ "/robots.txt")
      ⟨securityTxt.requests ++ robotsTxt.requests, ⟨securityTxt.result, robotsTxt.result⟩⟩

/-- The two URLs have the same scheme, host and port. -/
def SameOrigin (left right : String) : Prop :=
  ∃ leftUrl rightUrl, U.parse left = some leftUrl ∧ U.parse right = some rightUrl ∧
    U.scheme leftUrl = U.scheme rightUrl ∧ U.host leftUrl = U.host rightUrl ∧
    U.port leftUrl = U.port rightUrl

variable {U} {net : Network}

/-! ## Well-known files -/

/-- The check looks at the scheme and the host only. -/
theorem SameOrigin.safe {left right : String} (h : SameOrigin U left right)
    (hright : Safe U right) :
    Safe U left := by
  obtain ⟨leftUrl, rightUrl, hleft, hparse, hscheme, hhost, -⟩ := h
  unfold Safe validateUrlSafe at hright ⊢
  simp only [hparse] at hright
  simp only [hleft, hscheme, hhost]
  split at hright
  case isTrue => cases hright
  case isFalse hweb =>
    rw [if_neg hweb]
    split at hright
    · split at hright
      case isTrue => cases hright
      case isFalse hdomain => rw [if_neg hdomain]
    · split at hright
      case isTrue => cases hright
      case isFalse hip => rw [if_neg hip]
    · split at hright
      case isTrue => cases hright
      case isFalse hip => rw [if_neg hip]
    · cases hright

/-- A path behind the text of the origin of a safe URL is of the same origin. -/
theorem same_origin_of_origin_text {finalUrl name : String} {url : U.Url} (hsafe : Safe U finalUrl)
    (hparse : U.parse finalUrl = some url) (hname : U.hostStr url = some name) (rest : String) :
    SameOrigin U (originText (U.scheme url) name (U.port url) ++ "/" ++ rest) finalUrl := by
  obtain ⟨parsed, hparsed, hweb, -⟩ := hsafe.parses
  cases hparse.symm.trans hparsed
  obtain ⟨other, hother, hscheme, hhost, hport⟩ := U.parse_origin url name rest hweb hname
  exact ⟨other, url, hother, hparse, hscheme, hhost, hport⟩

/-- Only the URL itself is requested. -/
theorem mem_fetch_text {number : ℕ} {url requested : String}
    (h : requested ∈ (fetchText U net number url).requests) : requested = url := by
  simp only [fetchText, send] at h
  split at h
  · exact List.mem_singleton.mp h
  · cases h

/-- Only the listed URLs are requested. -/
theorem mem_fetch_security_txt {number : ℕ} {urls : List String} {requested : String}
    (h : requested ∈ (fetchSecurityTxt U net number urls).requests) : requested ∈ urls := by
  induction urls generalizing number with
  | nil => cases h
  | cons url urls ih =>
      have hfirst : ∀ text ∈ (fetchSecurityTxtOne U net number url).requests, text = url :=
        fun text htext => mem_fetch_text htext
      rw [fetchSecurityTxt] at h
      split at h
      · exact List.mem_cons.mpr (Or.inl (hfirst requested h))
      · rcases List.mem_append.mp h with h | h
        · exact List.mem_cons.mpr (Or.inl (hfirst requested h))
        · exact List.mem_cons_of_mem _ (ih h)

/-- Every well-known file that is requested is of the origin of the page. -/
theorem fetch_well_known_same_origin {finalUrl requested : String} (hsafe : Safe U finalUrl)
    (h : requested ∈ (fetchWellKnown U net finalUrl).requests) :
    SameOrigin U requested finalUrl := by
  unfold fetchWellKnown at h
  cases horigin : (U.parse finalUrl).bind (originRoot U) with
  | none =>
      rw [horigin] at h
      cases h
  | some origin =>
      rw [horigin] at h
      dsimp only at h
      obtain ⟨url, hparse, hroot⟩ := Option.bind_eq_some_iff.mp horigin
      unfold originRoot at hroot
      split at hroot
      · cases hroot
      · obtain ⟨name, hname, rfl⟩ := Option.map_eq_some_iff.mp hroot
        have hpath := same_origin_of_origin_text hsafe hparse hname
        simp only [fetchRobotsTxt, List.mem_append] at h
        rcases h with h | h
        · have hmem := mem_fetch_security_txt h
          simp only [List.mem_cons, List.not_mem_nil, or_false] at hmem
          rcases hmem with rfl | rfl
          · simpa [String.append_assoc] using hpath ".well-known/security.txt"
          · simpa [String.append_assoc] using hpath "security.txt"
        · rw [mem_fetch_text h]
          simpa [String.append_assoc] using hpath "robots.txt"

/-! ## The whole page -/

/-- `/favicon.ico` of a safe page is of the page's origin. -/
theorem fallback_favicon_url_same_origin {finalUrl url : String} (hsafe : Safe U finalUrl)
    (h : fallbackFaviconUrl U finalUrl = some url) : SameOrigin U url finalUrl := by
  obtain ⟨parsed, hparse, -, hhost⟩ := hsafe.parses
  obtain ⟨name, hname⟩ := Option.isSome_iff_exists.mp ((U.hostStr_isSome parsed).trans hhost)
  simp only [fallbackFaviconUrl, hparse] at h
  split at h
  · cases h
  · cases h
    rw [hname, Option.getD_some]
    simpa [String.append_assoc] using same_origin_of_origin_text hsafe hparse hname "favicon.ico"

/-- A page: the `href` of its icon and the sources of its scripts. -/
structure Page where
  faviconHref : Option String
  scriptSources : List String

/-- Whatever the servers answer, each request of the three fetchers is safe or stays on the origin
of the page, and the favicon takes at most `MAX_FAVICON_REDIRECTS + 1` of them. -/
def PageRequestsConfined (U : UrlCrate) (psl : Psl) (hash : List UInt8 → ℤ)
    (faviconNet scriptNet wellKnownNet : Network) (page : Page) (finalUrl : String) : Prop :=
  (∀ url, url ∈ (fetchAndHashFavicon U hash faviconNet page.faviconHref finalUrl).requests ∨
      url ∈ (scanExternalScripts U psl scriptNet finalUrl page.scriptSources false).requests ∨
      url ∈ (fetchWellKnown U wellKnownNet finalUrl).requests →
    Safe U url ∨ SameOrigin U url finalUrl) ∧
  (fetchAndHashFavicon U hash faviconNet page.faviconHref finalUrl).requests.length ≤
    maxFaviconRedirects + 1

/-- The requests of a page are confined exactly if its favicon `href`, once resolved, is a URL that
passes the check or one that the client does not send. -/
theorem page_requests_confined_iff (U : UrlCrate) (psl : Psl) (hash : List UInt8 → ℤ)
    (faviconNet scriptNet wellKnownNet : Network) (page : Page) (finalUrl : String)
    (hfinal : Safe U finalUrl) :
    PageRequestsConfined U psl hash faviconNet scriptNet wellKnownNet page finalUrl ↔
      ∀ href url, page.faviconHref = some href → resolveFaviconUrl U href finalUrl = some url →
        reqwestAccepts U url = true → Safe U url := by
  have hlength := fetch_and_hash_favicon_length_le U faviconNet hash page.faviconHref finalUrl
  constructor
  · intro h
    obtain ⟨hrequests, -⟩ := h
    intro href url hhref hurl haccepts
    -- A URL of the page's origin is safe too, so all requests of the favicon are safe.
    have hfirst : faviconUrl U page.faviconHref finalUrl = some url := by
      simp [faviconUrl, hhref, hurl]
    have hsafe : ∀ requested ∈
        (fetchAndHashFavicon U hash faviconNet page.faviconHref finalUrl).requests,
        Safe U requested := by
      intro requested hrequested
      rcases hrequests requested (Or.inl hrequested) with hsafe | horigin
      · exact hsafe
      · exact horigin.safe hfinal
    exact fetch_and_hash_favicon_safe_iff.mp hsafe url hfirst haccepts
  · intro h
    refine ⟨?_, hlength⟩
    intro url h
    rcases h with hfavicon | hscript | hwellKnown
    · refine Or.inl (fetch_and_hash_favicon_safe_iff.mpr (fun first hfirst haccepts => ?_) url
        hfavicon)
      cases hhref : page.faviconHref with
      | none =>
          simp only [faviconUrl, hhref] at hfirst
          exact (fallback_favicon_url_same_origin hfinal hfirst).safe hfinal
      | some href =>
          simp only [faviconUrl, hhref] at hfirst
          exact h href first hhref hfirst haccepts
    · exact Or.inl (scan_external_scripts_safe hscript)
    · exact Or.inr (fetch_well_known_same_origin hfinal hwellKnown)

/-- The public suffix list for the host of the example site. -/
def examplePsl : Psl where
  domainStr host := if host = "example.com" then some "example.com" else none
  suffixStr host := if host = "example.com" then some "com" else none

/-- A page whose icon is on its own site. -/
theorem page_requests_confined_own_icon :
    PageRequestsConfined exampleUrlCrate examplePsl (fun _ => 0) (fun _ _ => none)
      (fun _ _ => none) (fun _ _ => none) ⟨some "/icon.png", ["/app.js"]⟩
      "https://example.com/" := by
  refine (page_requests_confined_iff _ _ _ _ _ _ _ _ (by decide +kernel)).mpr ?_
  intro href url hhref hurl _
  cases hhref
  have hicon : resolveFaviconUrl exampleUrlCrate "/icon.png" "https://example.com/" =
      some "https://example.com/icon.png" := by decide +kernel
  cases hicon.symm.trans hurl
  decide +kernel

/-- A page on a public site whose icon points at a cloud metadata service: the service is
requested. -/
theorem page_requests_reach_metadata_service :
    Safe exampleUrlCrate "https://example.com/" ∧
      ¬ PageRequestsConfined exampleUrlCrate examplePsl (fun _ => 0) (fun _ _ => none)
        (fun _ _ => none) (fun _ _ => none) ⟨some "http://169.254.169.254/latest/meta-data", []⟩
        "https://example.com/" := by
  refine ⟨by decide +kernel, ?_⟩
  intro h
  obtain ⟨hrequests, -⟩ := h
  have hrequested : "http://169.254.169.254/latest/meta-data" ∈
      (fetchAndHashFavicon exampleUrlCrate (fun _ => 0) (fun _ _ => none)
        (some "http://169.254.169.254/latest/meta-data") "https://example.com/").requests := by
    decide +kernel
  have hunsafe : ¬ Safe exampleUrlCrate "http://169.254.169.254/latest/meta-data" := by
    decide +kernel
  rcases hrequests _ (Or.inl hrequested) with hsafe | horigin
  · exact hunsafe hsafe
  · exact hunsafe (horigin.safe (by decide +kernel))

end DomainStatus.Fetch
