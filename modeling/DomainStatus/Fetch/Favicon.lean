import DomainStatus.Fetch.Http
import DomainStatus.Lib.Text

/-!
# Favicon requests

The favicon fetcher of `src/fetch/favicon.rs`. It requests the URL that the page names, or
`/favicon.ico` of the page's origin, and follows up to `MAX_FAVICON_REDIRECTS` redirects. The hash
of the collected bytes is a parameter: it makes no request.

Only the targets of redirects pass `validate_url_safe`, so the first request decides whether all of
them are safe: `fetch_and_hash_favicon_safe_iff`.
-/

namespace DomainStatus.Fetch

open Security

/-- The most redirects that are followed for an icon. -/
def maxFaviconRedirects : ℕ := 5

/-- The most bytes that an icon may have. -/
def maxFaviconSize : ℕ := 50 * 1024

/-- `FaviconData`. -/
structure FaviconData where
  faviconUrl : String
  hash : ℤ
  deriving DecidableEq

variable (U : UrlCrate)

/-- What the fetcher does with a response. -/
inductive FaviconPass where
  | give (bytes : Option (List UInt8))
  | follow (nextUrl : String)
  deriving DecidableEq

/-- The URL of a redirect: the `Location`, trimmed, joined to the current URL, and checked. -/
def faviconRedirectTarget (currentUrl : String) (location : List UInt8) : Option String :=
  let locationStr := Text.trim ((headerToStr location).getD "")
  if locationStr = "" then none
  else
    match (U.parse currentUrl).bind fun base => U.join base locationStr with
    | none => none
    | some next => if Safe U (U.toString next) then some (U.toString next) else none

/-- The bytes of a successful response, if there are any and they fit. -/
def collectFavicon (maxSize : ℕ) (response : Response) : Option (List UInt8) :=
  if response.status.isSuccess then
    match streamBytesWithLimit maxSize .abort [] response.chunks with
    | .error _ => none
    | .ok streamed => if streamed.intoBytes = [] then none else some streamed.intoBytes
  else none

/-- The loop body behind the request. A redirect without a `Location` is not a success. -/
def faviconPass (maxSize : ℕ) (currentUrl : String) (response : Response) : FaviconPass :=
  if response.status.isRedirection then
    match response.location with
    | some location =>
        match faviconRedirectTarget U currentUrl location with
        | none => .give none
        | some nextUrl => .follow nextUrl
    | none => .give (collectFavicon maxSize response)
  else .give (collectFavicon maxSize response)

/-- The loop with `remaining` passes left, `hop` of them done. -/
def fetchFaviconLoop (net : Network) (maxSize : ℕ) :
    (remaining hop : ℕ) → (currentUrl : String) → Requested (Option (List UInt8))
  | 0, _, _ => ⟨[], none⟩
  | remaining + 1, hop, currentUrl =>
      let sent := send U net hop currentUrl
      match sent.result with
      | none => ⟨sent.requests, none⟩
      | some response =>
          match faviconPass U maxSize currentUrl response with
          | .give bytes => ⟨sent.requests, bytes⟩
          | .follow nextUrl =>
              let rest := fetchFaviconLoop net maxSize remaining (hop + 1) nextUrl
              ⟨sent.requests ++ rest.requests, rest.result⟩

/-- The bytes of a favicon: the first request and up to `MAX_FAVICON_REDIRECTS` more. -/
def fetchFaviconBytes (net : Network) (url : String) (maxSize : ℕ) :
    Requested (Option (List UInt8)) :=
  fetchFaviconLoop U net maxSize (maxFaviconRedirects + 1) 0 url

/-- The URL of a `href`: absolute, relative to the protocol, or joined to the page's URL. -/
def resolveFaviconUrl (href baseUrl : String) : Option String :=
  if Text.startsWith href "http://" || Text.startsWith href "https://" then some href
  else
    match Text.stripPrefix href "//" with
    | some path => some ("https://" ++ path)
    | none => ((U.parse baseUrl).bind fun base => U.join base href).map U.toString

/-- The scheme, host and port of an `http` or `https` URL as text. -/
def originText (scheme host : String) (port : Option ℕ) : String :=
  scheme ++ "://" ++ host ++ (port.elim "" fun number => ":" ++ Nat.repr number)

/-- `/favicon.ico` of the origin of the page. -/
def fallbackFaviconUrl (finalUrl : String) : Option String :=
  match U.parse finalUrl with
  | none => none
  | some url =>
      if U.scheme url ≠ "http" ∧ U.scheme url ≠ "https" then none
      else
        some (originText (U.scheme url) ((U.hostStr url).getD "") (U.port url) ++ "/favicon.ico")

/-- The URL that a page's favicon is requested from first. -/
def faviconUrl (faviconHref : Option String) (finalUrl : String) : Option String :=
  match faviconHref with
  | some href => resolveFaviconUrl U href finalUrl
  | none => fallbackFaviconUrl U finalUrl

/-- The favicon of a page and its hash. -/
def fetchAndHashFavicon (hash : List UInt8 → ℤ) (net : Network) (faviconHref : Option String)
    (finalUrl : String) : Requested (Option FaviconData) :=
  match faviconUrl U faviconHref finalUrl with
  | none => ⟨[], none⟩
  | some url =>
      let fetched := fetchFaviconBytes U net url maxFaviconSize
      ⟨fetched.requests, fetched.result.map fun bytes => ⟨url, hash bytes⟩⟩

variable {U} {net : Network} {maxSize : ℕ}

/-! ## Requests -/

/-- The target of a redirect passed the check. -/
theorem favicon_redirect_target_safe {currentUrl nextUrl : String} {location : List UInt8}
    (h : faviconRedirectTarget U currentUrl location = some nextUrl) : Safe U nextUrl := by
  simp only [faviconRedirectTarget] at h
  split at h
  · cases h
  · split at h
    · cases h
    · split at h
      case isTrue hsafe =>
        cases h
        exact hsafe
      case isFalse => cases h

/-- A pass that goes on goes to a checked URL. -/
theorem favicon_pass_follow_safe {currentUrl nextUrl : String} {response : Response}
    (h : faviconPass U maxSize currentUrl response = .follow nextUrl) : Safe U nextUrl := by
  unfold faviconPass at h
  split at h
  · split at h
    · split at h
      · cases h
      next htarget =>
        cases h
        exact favicon_redirect_target_safe htarget
    · cases h
  · cases h

/-- One call sends one request at most. -/
theorem send_requests_length_le (U : UrlCrate) (net : Network) (number : ℕ) (url : String) :
    (send U net number url).requests.length ≤ 1 := by
  unfold send
  split <;> simp

/-- Each pass makes at most one request. -/
theorem fetch_favicon_loop_length_le (remaining hop : ℕ) (currentUrl : String) :
    (fetchFaviconLoop U net maxSize remaining hop currentUrl).requests.length ≤ remaining := by
  induction remaining generalizing hop currentUrl with
  | zero => simp [fetchFaviconLoop]
  | succ remaining ih =>
      have hsent := send_requests_length_le U net hop currentUrl
      rw [fetchFaviconLoop]
      split
      · exact hsent.trans (by omega)
      · split
        · exact hsent.trans (by omega)
        next nextUrl _ =>
          have hrest := ih (hop + 1) nextUrl
          simp only [List.length_append]
          omega

/-- Every URL that the loop requests is the one it starts with or passed the check. -/
theorem fetch_favicon_loop_requests (remaining hop : ℕ) (currentUrl : String) :
    ∀ url ∈ (fetchFaviconLoop U net maxSize remaining hop currentUrl).requests,
      url = currentUrl ∧ reqwestAccepts U currentUrl = true ∨ Safe U url := by
  induction remaining generalizing hop currentUrl with
  | zero => simp [fetchFaviconLoop]
  | succ remaining ih =>
      have hsent : ∀ url ∈ (send U net hop currentUrl).requests,
          url = currentUrl ∧ reqwestAccepts U currentUrl = true ∨ Safe U url := by
        intro url hurl
        unfold send at hurl
        split at hurl
        case isTrue haccepts => exact Or.inl ⟨List.mem_singleton.mp hurl, haccepts⟩
        case isFalse => cases hurl
      intro url hurl
      rw [fetchFaviconLoop] at hurl
      split at hurl
      · exact hsent url hurl
      · split at hurl
        · exact hsent url hurl
        next nextUrl hfollow =>
          rcases List.mem_append.mp hurl with hurl | hurl
          · exact hsent url hurl
          · rcases ih (hop + 1) nextUrl url hurl with ⟨rfl, -⟩ | hsafe
            · exact Or.inr (favicon_pass_follow_safe hfollow)
            · exact Or.inr hsafe

/-- The first request is made whatever the servers answer. -/
theorem mem_fetch_favicon_loop {remaining hop : ℕ} {currentUrl : String}
    (h : reqwestAccepts U currentUrl = true) :
    currentUrl ∈ (fetchFaviconLoop U net maxSize (remaining + 1) hop currentUrl).requests := by
  have hsent : currentUrl ∈ (send U net hop currentUrl).requests := by simp [send, h]
  rw [fetchFaviconLoop]
  split
  · exact hsent
  · split
    · exact hsent
    · exact List.mem_append_left _ hsent

/-- All requests of a favicon fetch are safe exactly if its first URL is safe or the client refuses
it. -/
theorem fetch_and_hash_favicon_safe_iff {hash : List UInt8 → ℤ} {faviconHref : Option String}
    {finalUrl : String} :
    (∀ url ∈ (fetchAndHashFavicon U hash net faviconHref finalUrl).requests, Safe U url) ↔
      ∀ url, faviconUrl U faviconHref finalUrl = some url → reqwestAccepts U url = true →
        Safe U url := by
  unfold fetchAndHashFavicon
  cases hfirst : faviconUrl U faviconHref finalUrl with
  | none => simp
  | some first =>
      simp only [fetchFaviconBytes, Option.some.injEq, forall_eq']
      constructor
      · intro h haccepts
        exact h first (mem_fetch_favicon_loop haccepts)
      · intro h url hurl
        rcases fetch_favicon_loop_requests _ _ _ url hurl with ⟨rfl, haccepts⟩ | hsafe
        · exact h haccepts
        · exact hsafe

/-- A favicon fetch makes at most `MAX_FAVICON_REDIRECTS + 1` requests. -/
theorem fetch_and_hash_favicon_length_le (U : UrlCrate) (net : Network) (hash : List UInt8 → ℤ)
    (faviconHref : Option String) (finalUrl : String) :
    (fetchAndHashFavicon U hash net faviconHref finalUrl).requests.length ≤
      maxFaviconRedirects + 1 := by
  unfold fetchAndHashFavicon
  split
  · simp
  · exact fetch_favicon_loop_length_le _ _ _

end DomainStatus.Fetch
