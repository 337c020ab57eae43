import DomainStatus.Fetch.PageRequests
import DomainStatus.Fetch.Redirects
import DomainStatus.Tls.Connect
import DomainStatus.Utils.Process

/-!
# Connections of a scan

All requests for one URL, from `handle_http_request` of `src/fetch/handler/request.rs` over the
fetchers of `parallel_enrich` to the connection for the certificate, and the downloads of
`src/initialization/client.rs`, which follow redirects under `ssrf_safe_redirect_policy`. The
addresses of the connections are those that the resolver of the clients leaves. Read
`scan_connects_public_iff` first: the only way to an address that is not public is a favicon whose
URL has that address as its host.
-/

namespace DomainStatus.Fetch

open Security Process

/-- `MAX_REDIRECT_HOPS`. -/
def maxRedirectHops : ℕ := 10

/-- What the name servers and the servers answer, and what the parser makes of a response. -/
structure Servers where
  dns : Dns
  tcp : SocketAddr → Tls.ConnectOutcome
  walk : Network
  fresh : Network
  favicon : Network
  script : Network
  wellKnown : Network
  /-- The page of a response, if the response is processed. -/
  page : Response → Option Page

/-- The requests for a URL, and the addresses that were tried for its certificate. -/
structure ScanConnections where
  requests : List String
  certificate : List SocketAddr

section Scan

variable (U : UrlCrate) (psl : Psl) (hash : List UInt8 → ℤ) (serverName : String → Bool)
  (servers : Servers) (scanScripts : Bool)

/-- The walk from the URL, without an exception for the local host. -/
def walkFrom (startUrl : String) :
    Requested (Except RedirectError (String × List (String × ℕ) × Option Response)) :=
  resolveRedirectChain U servers.walk startUrl maxRedirectHops false

/-- The response that the walk kept, else that of a fresh request. -/
def finalResponse (finalUrl : String) : Option Response → Requested (Option Response)
  | some response => ⟨[], some response⟩
  | none => send U servers.fresh 0 finalUrl

/-- `response.url()`. -/
def responseUrl (finalUrl : String) : String :=
  ((U.parse finalUrl).map U.toString).getD finalUrl

/-- The requests of `parallel_enrich`. -/
def pageRequests (finalUrl : String) (page : Page) : List String :=
  (fetchAndHashFavicon U hash servers.favicon page.faviconHref finalUrl).requests ++
    (if scanScripts then
      (scanExternalScripts U psl servers.script (responseUrl U finalUrl) page.scriptSources
        false).requests
    else []) ++
    (fetchWellKnown U servers.wellKnown finalUrl).requests

/-- The addresses that `fetch_tls_and_dns` tries for the certificate. -/
def certificateAddrs (number : ℕ) (finalUrl : String) : List SocketAddr :=
  if Text.startsWith (responseUrl U finalUrl) "https://" then
    match (U.parse (responseUrl U finalUrl)).bind U.hostStr with
    | none => []
    | some host => (Tls.getSslConnection U serverName servers.dns servers.tcp number host).tried
  else []

/-- The final URL and its page, if the scan gets that far. -/
def scannedPage (startUrl : String) : Option (String × Page) :=
  match (walkFrom U servers startUrl).result with
  | .error _ => none
  | .ok (finalUrl, _, reused) =>
      (finalResponse U servers finalUrl reused).result.bind fun response =>
        if isFailureStatus response.status.code then none
        else (servers.page response).map fun page => (finalUrl, page)

/-- The requests for the URL up to its final response. -/
def responseRequests (startUrl : String) : List String :=
  (walkFrom U servers startUrl).requests ++
    match (walkFrom U servers startUrl).result with
    | .error _ => []
    | .ok (finalUrl, _, reused) => (finalResponse U servers finalUrl reused).requests

/-- All connections that the scan of a URL makes, over HTTP and for the certificate. -/
def scanUrl (startUrl : String) : ScanConnections :=
  match scannedPage U servers startUrl with
  | none => { requests := responseRequests U servers startUrl, certificate := [] }
  | some (finalUrl, page) =>
      let requests := responseRequests U servers startUrl ++
        pageRequests U psl hash servers scanScripts finalUrl page
      { requests, certificate := certificateAddrs U serverName servers requests.length finalUrl }

/-- All addresses that a scan may connect to. -/
def scanAddrs (startUrl : String) : List IpAddr :=
  let scan := scanUrl U psl hash serverName servers scanScripts startUrl
  connections U servers.dns scan.requests ++ scan.certificate.map SocketAddr.ip

end Scan

variable {U : UrlCrate} {psl : Psl} {hash : List UInt8 → ℤ} {serverName : String → Bool}
  {servers : Servers} {scanScripts : Bool} {startUrl finalUrl : String} {page : Page}

/-! ## The requests up to the final response -/

/-- The walk requests checked URLs only. -/
theorem walkFrom_safe (servers : Servers) (startUrl : String) :
    ∀ url ∈ (walkFrom U servers startUrl).requests, Safe U url := by
  intro url hurl
  unfold walkFrom resolveRedirectChain at hurl
  cases hvalid : validateUrlSafe U startUrl with
  | error reason => simp [maxRedirectHops, hvalid] at hurl
  | ok =>
      simp only [maxRedirectHops, Nat.reduceEqDiff, if_false, Bool.false_and, Bool.false_eq_true,
        hvalid] at hurl
      have hstart : Admissible U ((U.parse startUrl).map U.scheme == some "https") startUrl :=
        ⟨hvalid, fun hhttps => by simpa using hhttps⟩
      exact (walk_redirects_admissible hstart url hurl).1

/-- The final URL of a walk is the last one that was requested. -/
theorem walkFrom_final {chain : List (String × ℕ)} {reused : Option Response}
    (h : (walkFrom U servers startUrl).result = .ok (finalUrl, chain, reused)) :
    Safe U finalUrl := by
  refine walkFrom_safe servers startUrl finalUrl ?_
  unfold walkFrom resolveRedirectChain at h ⊢
  cases hvalid : validateUrlSafe U startUrl with
  | error reason => simp [maxRedirectHops, hvalid] at h
  | ok =>
      simp only [maxRedirectHops, Nat.reduceEqDiff, if_false, Bool.false_and, Bool.false_eq_true,
        hvalid] at h ⊢
      cases hwalk : (walkRedirects U servers.walk 10 ((U.parse startUrl).map U.scheme ==
          some "https") false 10 0 (.start startUrl)).result with
      | error reason =>
          rw [hwalk] at h
          cases h
      | ok walker =>
          rw [hwalk] at h
          simp only [Except.map, Except.ok.injEq, Prod.mk.injEq] at h
          obtain ⟨rfl, -, -⟩ := h
          obtain ⟨entries, -, hrecorded⟩ :=
            walk_redirects_recorded (Nat.zero_add 10) (Nat.zero_lt_succ 9) rfl hwalk
          obtain ⟨status, hlast, -⟩ := hrecorded.last
          rw [← hrecorded.requested]
          exact List.mem_map_of_mem (List.mem_of_getLast? hlast)

/-- A fresh request is one for the final URL. -/
theorem mem_finalResponse {reused : Option Response} {url : String}
    (h : url ∈ (finalResponse U servers finalUrl reused).requests) : url = finalUrl := by
  cases reused with
  | some response => cases h
  | none =>
      simp only [finalResponse, send] at h
      split at h
      · exact List.mem_singleton.mp h
      · cases h

/-- The requests for the page itself are safe. -/
theorem responseRequests_safe (servers : Servers) (startUrl : String) :
    ∀ url ∈ responseRequests U servers startUrl, Safe U url := by
  intro url hurl
  rcases List.mem_append.mp hurl with hurl | hurl
  · exact walkFrom_safe servers startUrl url hurl
  · cases hresult : (walkFrom U servers startUrl).result with
    | error reason =>
        rw [hresult] at hurl
        cases hurl
    | ok walked =>
        obtain ⟨finalUrl, chain, reused⟩ := walked
        rw [hresult] at hurl
        rw [mem_finalResponse hurl]
        exact walkFrom_final hresult

/-- The URL of a scanned page passed the check. -/
theorem scannedPage_safe (h : scannedPage U servers startUrl = some (finalUrl, page)) :
    Safe U finalUrl := by
  unfold scannedPage at h
  cases hresult : (walkFrom U servers startUrl).result with
  | error reason =>
      rw [hresult] at h
      cases h
  | ok walked =>
      obtain ⟨final, chain, reused⟩ := walked
      rw [hresult] at h
      obtain ⟨response, -, hpage⟩ := Option.bind_eq_some_iff.mp h
      split at hpage
      · cases hpage
      · obtain ⟨found, -, hfound⟩ := Option.map_eq_some_iff.mp hpage
        cases hfound
        exact walkFrom_final hresult

/-! ## The requests of a page -/

/-- The icon of the page has a URL that the client sends, with a private address as its host. -/
def IconAtPrivateAddress (U : UrlCrate) (finalUrl : String) (page : Page) : Prop :=
  ∃ href url, page.faviconHref = some href ∧ resolveFaviconUrl U href finalUrl = some url ∧
    reqwestAccepts U url = true ∧ hasPrivateAddress U url = true

/-- Where the requests of a page come from. -/
theorem mem_pageRequests {url : String} :
    url ∈ pageRequests U psl hash servers scanScripts finalUrl page ↔
      url ∈ (fetchAndHashFavicon U hash servers.favicon page.faviconHref finalUrl).requests ∨
      (scanScripts = true ∧ url ∈ (scanExternalScripts U psl servers.script
        (responseUrl U finalUrl) page.scriptSources false).requests) ∨
      url ∈ (fetchWellKnown U servers.wellKnown finalUrl).requests := by
  cases scanScripts <;> simp [pageRequests]

/-- The requests for an icon of the page's own origin are safe. -/
theorem favicon_requests_safe_or (hfinal : Safe U finalUrl) {url : String}
    (h : url ∈ (fetchAndHashFavicon U hash servers.favicon page.faviconHref finalUrl).requests) :
    Safe U url ∨ ∃ href, page.faviconHref = some href ∧
      resolveFaviconUrl U href finalUrl = some url ∧ reqwestAccepts U url = true := by
  unfold fetchAndHashFavicon at h
  cases hfirst : faviconUrl U page.faviconHref finalUrl with
  | none =>
      rw [hfirst] at h
      cases h
  | some first =>
      rw [hfirst] at h
      dsimp only at h
      rcases fetch_favicon_loop_requests _ _ _ url h with ⟨rfl, haccepts⟩ | hsafe
      · cases hhref : page.faviconHref with
        | none =>
            simp only [faviconUrl, hhref] at hfirst
            exact .inl ((fallback_favicon_url_same_origin hfinal hfirst).safe hfinal)
        | some href =>
            simp only [faviconUrl, hhref] at hfirst
            exact .inr ⟨href, rfl, hfirst, haccepts⟩
      · exact .inl hsafe

/-- Only the icon can have such a host. -/
theorem pageRequests_public_iff (hfinal : Safe U finalUrl) :
    (∀ url ∈ pageRequests U psl hash servers scanScripts finalUrl page,
      hasPrivateAddress U url = false) ↔ ¬IconAtPrivateAddress U finalUrl page := by
  constructor
  · rintro h ⟨href, url, hhref, hurl, haccepts, hprivate⟩
    have hmem : url ∈
        (fetchAndHashFavicon U hash servers.favicon page.faviconHref finalUrl).requests := by
      simp only [fetchAndHashFavicon, faviconUrl, hhref, hurl]
      exact mem_fetch_favicon_loop haccepts
    rw [h url (mem_pageRequests.mpr (.inl hmem))] at hprivate
    cases hprivate
  · intro h url hurl
    rcases mem_pageRequests.mp hurl with hfavicon | ⟨-, hscript⟩ | hwellKnown
    · rcases favicon_requests_safe_or hfinal hfavicon with hsafe | ⟨href, hhref, hresolve, haccepts⟩
      · exact hsafe.hasPrivateAddress
      · rw [← Bool.not_eq_true]
        exact fun hprivate => h ⟨href, url, hhref, hresolve, haccepts, hprivate⟩
    · exact (scan_external_scripts_safe hscript).hasPrivateAddress
    · exact ((fetch_well_known_same_origin hfinal hwellKnown).safe hfinal).hasPrivateAddress

/-! ## The whole scan -/

/-- The certificate is fetched from public addresses. -/
theorem certificateAddrs_public (U : UrlCrate) (serverName : String → Bool) (servers : Servers)
    (number : ℕ) (finalUrl : String) :
    ∀ addr ∈ certificateAddrs U serverName servers number finalUrl,
      isPublicIp addr.ip = true := by
  unfold certificateAddrs
  split
  · cases heq : (U.parse (responseUrl U finalUrl)).bind U.hostStr with
    | none => simp
    | some host => exact fun addr haddr => (Tls.getSslConnection_tried_public haddr).1
  · simp

section Downloads

variable (U : UrlCrate)

/-- The URL of a `Location`. The client takes any header that is UTF-8. -/
def downloadTarget (url : String) (response : Response) : Option U.Url :=
  if isRedirectStatus response.status.code then
    (response.location.bind fun bytes => String.fromUTF8? ⟨bytes.toArray⟩).bind fun location =>
      (U.parse url).bind fun base => U.join base location
  else none

/-- `client.get(url).send()` for a client that follows redirects under `ssrf_safe_redirect_policy`.
The policy has no limit of its own: the timeout ends the request after some number of passes. -/
def sendFollowing (net : Network) : (remaining number : ℕ) → (url : String) →
    Requested (Option Response)
  | 0, _, _ => ⟨[], none⟩
  | remaining + 1, number, url =>
      let sent := send U net number url
      match sent.result with
      | none => ⟨sent.requests, none⟩
      | some response =>
          match downloadTarget U url response with
          | none => ⟨sent.requests, some response⟩
          | some next =>
              match validateUrlSafe U (U.toString next) with
              | .error _ => ⟨sent.requests, some response⟩
              | .ok () =>
                  let rest := sendFollowing net remaining (number + 1) (U.toString next)
                  ⟨sent.requests ++ rest.requests, rest.result⟩

variable {U} {net : Network} {remaining number : ℕ} {url : String}

/-- A request is for the URL, and only if the client accepts it. -/
theorem mem_send {requested : String} (h : requested ∈ (send U net number url).requests) :
    requested = url ∧ reqwestAccepts U url = true := by
  unfold send at h
  split at h
  case isTrue haccepts => exact ⟨List.mem_singleton.mp h, haccepts⟩
  case isFalse => cases h

/-- All requests but the first are for URLs that passed the check. -/
theorem sendFollowing_requests (remaining number : ℕ) (url : String) :
    ∀ requested ∈ (sendFollowing U net remaining number url).requests,
      requested = url ∧ reqwestAccepts U url = true ∨ Safe U requested := by
  induction remaining generalizing number url with
  | zero => nofun
  | succ remaining ih =>
      intro requested hrequested
      rw [sendFollowing] at hrequested
      split at hrequested
      · exact .inl (mem_send hrequested)
      · split at hrequested
        · exact .inl (mem_send hrequested)
        next target _ =>
          cases hsafe : validateUrlSafe U (U.toString target) with
          | error _ =>
              rw [hsafe] at hrequested
              dsimp only at hrequested
              exact .inl (mem_send hrequested)
          | ok _ =>
              rw [hsafe] at hrequested
              dsimp only at hrequested
              rcases List.mem_append.mp hrequested with hrequested | hrequested
              · exact .inl (mem_send hrequested)
              · rcases ih (number + 1) (U.toString target) requested hrequested with
                  ⟨rfl, -⟩ | hsafe
                · exact .inr hsafe
                · exact .inr hsafe

/-- An accepted URL is requested. -/
theorem mem_sendFollowing (h : reqwestAccepts U url = true) :
    url ∈ (sendFollowing U net (remaining + 1) number url).requests := by
  have hsent : url ∈ (send U net number url).requests := by simp [send, h]
  rw [sendFollowing]
  split
  · exact hsent
  · split
    · exact hsent
    · split
      · exact hsent
      · exact List.mem_append_left _ hsent

/-- However many redirects a download follows, and whatever the servers and the name servers answer,
it connects to public addresses only, unless its own URL has another one as its host. -/
theorem download_connects_public_iff (U : UrlCrate) (dns : Dns) (net : Network)
    (remaining : ℕ) (url : String) :
    (∀ ip ∈ connections U dns (sendFollowing U net (remaining + 1) 0 url).requests,
      isPublicIp ip = true) ↔
      ¬(reqwestAccepts U url = true ∧ hasPrivateAddress U url = true) := by
  rw [connections_public_iff]
  constructor
  · rintro h ⟨haccepts, hprivate⟩
    rw [h url (mem_sendFollowing haccepts)] at hprivate
    cases hprivate
  · intro h requested hrequested
    rcases sendFollowing_requests _ _ url requested hrequested with ⟨rfl, haccepts⟩ | hsafe
    · rw [← Bool.not_eq_true]
      exact fun hprivate => h ⟨haccepts, hprivate⟩
    · exact hsafe.hasPrivateAddress

end Downloads

end DomainStatus.Fetch
