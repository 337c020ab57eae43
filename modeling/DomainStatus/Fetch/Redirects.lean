import DomainStatus.Fetch.Http

/-!
# The redirect walker

`resolve_redirect_chain` and `validate_redirect_target` of `src/fetch/redirects.rs`. The network is
an arbitrary function of the number of the request and the requested URL, so that a server may
change its answer from one request to the next. The walker returns its result together with the
URLs that it requested, in order.

`Walk` describes the chain that a run records. `resolve_redirect_chain_safe` says that every
requested URL passed the check, that a chain started on `https` stays on it, and what the walker
returns.
-/

namespace DomainStatus.Fetch

open Security

/-- The kinds of failure of the walker. -/
inductive RedirectError where
  | zeroMaxHops
  | unsafeInitialUrl (reason : UnsafeUrl)
  | transport (url : String)
  | invalidLocation (url location : String)
  deriving DecidableEq

/-- The five status codes that the walker follows. -/
def isRedirectStatus (statusCode : ℕ) : Bool :=
  statusCode == 301 || statusCode == 302 || statusCode == 303 || statusCode == 307 ||
    statusCode == 308

variable (U : UrlCrate)

/-- The host is a loopback address literal. -/
def isLoopbackUrl (urlStr : String) : Bool :=
  match (U.parse urlStr).bind U.host with
  | some (.ipv4 ip) => ip.isLoopback
  | some (.ipv6 ip) => ip.isLoopback
  | _ => false

/-- Refuses a downgrade from `https` to `http` and every URL that fails the check. -/
def validateRedirectTarget (newUrlStr newScheme : String)
    (chainStartedHttps allowLoopback : Bool) : Bool :=
  if chainStartedHttps && newScheme == "http" then false
  else (allowLoopback && isLoopbackUrl U newUrlStr) || (validateUrlSafe U newUrlStr).toBool

/-- The absolute URL of a `Location`: parsed as it stands, else joined to the current URL. -/
def resolveLocation (current location : String) : Option U.Url :=
  (U.parse location).or ((U.parse current).bind fun base => U.join base location)

/-- The variables of the loop. -/
structure Walker where
  current : String
  lastFetchedUrl : String
  chain : List (String × ℕ)
  finalResponse : Option Response

/-- The variables as the loop starts. -/
def Walker.start (startUrl : String) : Walker :=
  { current := startUrl, lastFetchedUrl := startUrl, chain := [], finalResponse := none }

/-- How one pass through the loop body ends: `?` returns an error, `break` leaves the loop with the
variables as they are, and `continue` starts the next pass. -/
inductive Pass where
  | error (reason : RedirectError)
  | stop (walker : Walker)
  | follow (walker : Walker)

/-- The loop body at hop number `hopNum`. It requests `walker.current` and nothing else. -/
def visit (net : Network) (maxHops : ℕ) (chainStartedHttps allowLoopback : Bool) (hopNum : ℕ)
    (walker : Walker) : Pass :=
  let walker := { walker with lastFetchedUrl := walker.current }
  match net hopNum walker.current with
  | none => .error (.transport walker.current)
  | some resp =>
      let walker := { walker with chain := walker.chain ++ [(walker.current, resp.status.code)] }
      if isRedirectStatus resp.status.code then
        match resp.location with
        | none => .stop walker
        | some loc =>
            match headerToStr loc with
            | none => .stop walker
            | some locStr =>
                match resolveLocation U walker.current locStr with
                | none => .error (.invalidLocation walker.current locStr)
                | some newUrl =>
                    if !validateRedirectTarget U (U.toString newUrl) (U.scheme newUrl)
                        chainStartedHttps allowLoopback then .stop walker
                    else if hopNum == maxHops - 1 then .stop walker
                    else .follow { walker with current := U.toString newUrl }
      else .stop { walker with finalResponse := some resp }

/-- The loop from hop number `hopNum` on, with `remaining` passes left. -/
def walkRedirects (net : Network) (maxHops : ℕ) (chainStartedHttps allowLoopback : Bool) :
    (remaining hopNum : ℕ) → Walker → Requested (Except RedirectError Walker)
  | 0, _, walker => ⟨[], .ok walker⟩
  | remaining + 1, hopNum, walker =>
      match visit U net maxHops chainStartedHttps allowLoopback hopNum walker with
      | .error reason => ⟨[walker.current], .error reason⟩
      | .stop stopped => ⟨[walker.current], .ok stopped⟩
      | .follow next =>
          let rest := walkRedirects net maxHops chainStartedHttps allowLoopback remaining
            (hopNum + 1) next
          ⟨walker.current :: rest.requests, rest.result⟩

/-- The walk from `startUrl` over at most `maxHops` requests: the final URL, the chain of requested
URLs with their status, and the final response unless the walk stopped at a redirect. -/
def resolveRedirectChain (net : Network) (startUrl : String) (maxHops : ℕ)
    (allowLoopback : Bool) :
    Requested (Except RedirectError (String × List (String × ℕ) × Option Response)) :=
  if maxHops = 0 then ⟨[], .error .zeroMaxHops⟩
  else
    let skipInitialValidation := allowLoopback && isLoopbackUrl U startUrl
    match (if skipInitialValidation then .ok () else validateUrlSafe U startUrl) with
    | .error reason => ⟨[], .error (.unsafeInitialUrl reason)⟩
    | .ok () =>
        let chainStartedHttps := ((U.parse startUrl).map U.scheme) == some "https"
        let walked := walkRedirects U net maxHops chainStartedHttps allowLoopback maxHops 0
          (.start startUrl)
        ⟨walked.requests, walked.result.map fun walker =>
          let chain :=
            if walker.chain.getLast?.map Prod.fst = some walker.lastFetchedUrl then walker.chain
            -- Status 0 marks a URL for which no response was recorded.
            else walker.chain ++ [(walker.lastFetchedUrl, 0)]
          (walker.lastFetchedUrl, chain, walker.finalResponse)⟩

/-! ## Chains -/

/-- Request `hop` for `url` was answered by a redirect with `status` whose `Location` resolves to
`target`, and the target passed both guards. -/
def Hop (net : Network) (chainStartedHttps : Bool) (hop : ℕ) (url : String) (status : ℕ)
    (target : String) : Prop :=
  ∃ resp loc locStr newUrl, net hop url = some resp ∧ resp.status.code = status ∧
    isRedirectStatus status = true ∧ resp.location = some loc ∧ headerToStr loc = some locStr ∧
    resolveLocation U url locStr = some newUrl ∧ target = U.toString newUrl ∧
    validateRedirectTarget U target (U.scheme newUrl) chainStartedHttps false = true

/-- The chain of a walk that requests `url` as request number `hop`: each entry holds the status
that the network gave, and each entry but the last is a hop to the next one. -/
inductive Walk (net : Network) (chainStartedHttps : Bool) : ℕ → String → List (String × ℕ) → Prop
  | last {hop : ℕ} {url : String} {resp : Response} (hresp : net hop url = some resp) :
      Walk net chainStartedHttps hop url [(url, resp.status.code)]
  | follow {hop : ℕ} {url : String} {status : ℕ} {target : String} {rest : List (String × ℕ)}
      (hhop : Hop U net chainStartedHttps hop url status target)
      (hrest : Walk net chainStartedHttps (hop + 1) target rest) :
      Walk net chainStartedHttps hop url ((url, status) :: rest)

/-- The URL passed the check, and it is `https` if the chain started there. -/
def Admissible (chainStartedHttps : Bool) (url : String) : Prop :=
  Safe U url ∧ (chainStartedHttps = true → (U.parse url).map U.scheme = some "https")

variable {U} {net : Network} {maxHops : ℕ} {chainStartedHttps : Bool}

/-- A URL that passes both guards is safe, and `https` if the chain started there. -/
theorem validate_redirect_target_admissible {newUrl : U.Url}
    (h : validateRedirectTarget U (U.toString newUrl) (U.scheme newUrl) chainStartedHttps false =
      true) : Admissible U chainStartedHttps (U.toString newUrl) := by
  unfold validateRedirectTarget at h
  split at h
  case isTrue => cases h
  case isFalse hdowngrade =>
    have hsafe : Safe U (U.toString newUrl) := by
      cases hvalid : validateUrlSafe U (U.toString newUrl) with
      | error reason => simp [hvalid, Except.toBool] at h
      | ok => exact hvalid
    refine ⟨hsafe, fun hhttps => ?_⟩
    obtain ⟨url, hparse, hscheme, -⟩ := hsafe.parses
    rw [U.parse_toString] at hparse
    cases hparse
    rcases hscheme with hhttp | hscheme
    · simp [hhttps, hhttp] at hdowngrade
    · simp [U.parse_toString, hscheme]

/-- The target of a hop is admissible. -/
theorem Hop.admissible {hop status : ℕ} {url target : String}
    (h : Hop U net chainStartedHttps hop url status target) :
    Admissible U chainStartedHttps target := by
  obtain ⟨_, _, _, newUrl, -, -, -, -, -, -, rfl, hvalid⟩ := h
  exact validate_redirect_target_admissible hvalid

/-- A pass that leaves the loop recorded the response of the current URL, and keeps the response
itself if it is not a redirect. -/
theorem visit_stop {hopNum : ℕ} {walker stopped : Walker}
    (h : visit U net maxHops chainStartedHttps false hopNum walker = .stop stopped) :
    ∃ resp, net hopNum walker.current = some resp ∧
      stopped = { walker with
        lastFetchedUrl := walker.current
        chain := walker.chain ++ [(walker.current, resp.status.code)]
        finalResponse :=
          if isRedirectStatus resp.status.code then walker.finalResponse else some resp } := by
  unfold visit at h
  cases hresp : net hopNum walker.current with
  | none => simp [hresp] at h
  | some resp =>
      refine ⟨resp, rfl, ?_⟩
      simp only [hresp] at h
      split at h
      case isTrue hredirect =>
        rw [if_pos hredirect]
        repeat' split at h
        all_goals cases h
        all_goals rfl
      case isFalse hredirect =>
        rw [if_neg hredirect]
        cases h
        rfl

/-- A pass that goes on has made a hop, and it is not the last pass. -/
theorem visit_follow {hopNum : ℕ} {walker next : Walker}
    (h : visit U net maxHops chainStartedHttps false hopNum walker = .follow next) :
    ∃ status, Hop U net chainStartedHttps hopNum walker.current status next.current ∧
      next.chain = walker.chain ++ [(walker.current, status)] ∧
      next.finalResponse = walker.finalResponse ∧ hopNum ≠ maxHops - 1 := by
  unfold visit at h
  cases hresp : net hopNum walker.current with
  | none => simp [hresp] at h
  | some resp =>
      simp only [hresp] at h
      by_cases hredirect : isRedirectStatus resp.status.code = true
      · rw [if_pos hredirect] at h
        cases hloc : resp.location with
        | none => simp [hloc] at h
        | some loc =>
            simp only [hloc] at h
            cases hstr : headerToStr loc with
            | none => simp [hstr] at h
            | some locStr =>
                simp only [hstr] at h
                cases hresolve : resolveLocation U walker.current locStr with
                | none => simp [hresolve] at h
                | some newUrl =>
                    simp only [hresolve] at h
                    split_ifs at h with hvalid hlast
                    cases h
                    refine ⟨resp.status.code, ⟨resp, loc, locStr, newUrl, hresp, rfl, hredirect,
                      hloc, hstr, hresolve, rfl, by simpa using hvalid⟩, rfl, rfl,
                      by simpa using hlast⟩
      · rw [if_neg hredirect] at h
        cases h

/-- Every requested URL is admissible if the first one is. -/
theorem walk_redirects_admissible {remaining hopNum : ℕ} {walker : Walker}
    (hcurrent : Admissible U chainStartedHttps walker.current) :
    ∀ url ∈ (walkRedirects U net maxHops chainStartedHttps false remaining hopNum walker).requests,
      Admissible U chainStartedHttps url := by
  induction remaining generalizing hopNum walker with
  | zero => simp [walkRedirects]
  | succ remaining ih =>
      rw [walkRedirects]
      match hfollow : visit U net maxHops chainStartedHttps false hopNum walker with
      | .error _ => simpa using hcurrent
      | .stop _ => simpa using hcurrent
      | .follow next =>
          obtain ⟨status, hhop, -⟩ := visit_follow hfollow
          intro url hurl
          rcases List.mem_cons.mp hurl with rfl | hurl
          · exact hcurrent
          · exact ih hhop.admissible url hurl

/-- What the loop returns: the recorded entries form a walk over the requested URLs, and the
response is kept exactly if the last status is not a redirect. -/
structure Recorded (U : UrlCrate) (net : Network) (chainStartedHttps : Bool) (hopNum bound : ℕ)
    (url : String) (requests : List String) (entries : List (String × ℕ)) (lastFetchedUrl : String)
    (finalResponse : Option Response) : Prop where
  walk : Walk U net chainStartedHttps hopNum url entries
  requested : entries.map Prod.fst = requests
  length_le : entries.length ≤ bound
  last : ∃ status, entries.getLast? = some (lastFetchedUrl, status) ∧
    (finalResponse.isSome ↔ isRedirectStatus status = false)

/-- The loop, entered with passes left, appends what `Recorded` describes to the chain. The last
pass never goes on, so the loop does not end by running out of passes. -/
theorem walk_redirects_recorded {remaining hopNum : ℕ} {walker final : Walker}
    (hpasses : hopNum + remaining = maxHops) (hremaining : 0 < remaining)
    (hresponse : walker.finalResponse = none)
    (h : (walkRedirects U net maxHops chainStartedHttps false remaining hopNum walker).result =
      .ok final) :
    ∃ entries, final.chain = walker.chain ++ entries ∧
      Recorded U net chainStartedHttps hopNum remaining walker.current
        (walkRedirects U net maxHops chainStartedHttps false remaining hopNum walker).requests
        entries final.lastFetchedUrl final.finalResponse := by
  induction remaining generalizing hopNum walker with
  | zero => cases hremaining
  | succ remaining ih =>
      rw [walkRedirects] at h ⊢
      match hstop : visit U net maxHops chainStartedHttps false hopNum walker with
      | .error _ =>
          rw [hstop] at h
          cases h
      | .stop stopped =>
          rw [hstop] at h
          obtain ⟨resp, hresp, rfl⟩ := visit_stop hstop
          cases h
          refine ⟨[(walker.current, resp.status.code)], rfl, .last hresp, rfl, by simp,
            resp.status.code, rfl, ?_⟩
          cases isRedirectStatus resp.status.code <;> simp [hresponse]
      | .follow next =>
          rw [hstop] at h
          obtain ⟨status, hhop, hchain, hnone, hlast⟩ := visit_follow hstop
          have hpasses' : hopNum + 1 + remaining = maxHops := by omega
          obtain ⟨entries, hfinal, hrest⟩ := ih hpasses' (by omega) (hnone.trans hresponse) h
          obtain ⟨status', hgetLast, hsome⟩ := hrest.last
          refine ⟨(walker.current, status) :: entries, by simp [hfinal, hchain],
            .follow hhop hrest.walk, by simp [hrest.requested], ?_, status', ?_, hsome⟩
          · simpa using hrest.length_le
          · simp [List.getLast?_cons, hgetLast]

/-! ## Properties of a walk -/

/-- A chain starts with the URL. -/
theorem Walk.head {hop : ℕ} {url : String} {chain : List (String × ℕ)}
    (h : Walk U net chainStartedHttps hop url chain) : chain.head?.map Prod.fst = some url := by
  cases h <;> rfl

/-- Two neighbouring entries are a hop. -/
theorem Walk.hop_at {hop i : ℕ} {url : String} {chain : List (String × ℕ)}
    {entry next : String × ℕ} (h : Walk U net chainStartedHttps hop url chain)
    (hentry : chain[i]? = some entry) (hnext : chain[i + 1]? = some next) :
    Hop U net chainStartedHttps (hop + i) entry.1 entry.2 next.1 := by
  induction h generalizing i with
  | last => simp at hnext
  | @follow hop url status target rest hhop hrest ih =>
      cases i with
      | zero =>
          have htarget : target = next.1 := by
            have hhead := hrest.head
            simp only [List.head?_eq_getElem?] at hhead
            simp_all
          simp only [List.getElem?_cons_zero, Option.some.injEq] at hentry
          subst hentry htarget
          exact hhop
      | succ i =>
          have hrec := ih (by simpa using hentry) (by simpa using hnext)
          rwa [Nat.add_right_comm] at hrec

/-- The recorded status is the one of the response. -/
theorem Walk.status_at {hop i : ℕ} {url : String} {chain : List (String × ℕ)}
    {entry : String × ℕ} (h : Walk U net chainStartedHttps hop url chain)
    (hentry : chain[i]? = some entry) :
    ∃ resp, net (hop + i) entry.1 = some resp ∧ resp.status.code = entry.2 := by
  induction h generalizing i with
  | last hresp =>
      cases i with
      | zero =>
          cases hentry
          exact ⟨_, hresp, rfl⟩
      | succ i => simp at hentry
  | follow hhop hrest ih =>
      cases i with
      | zero =>
          cases hentry
          obtain ⟨resp, _, _, _, hresp, hstatus, -⟩ := hhop
          exact ⟨resp, hresp, hstatus⟩
      | succ i =>
          have hrec := ih (by simpa using hentry)
          rwa [Nat.add_right_comm] at hrec

/-! ## The walker -/

/-- What `resolve_redirect_chain` promises of a successful walk: the chain starts at the start URL,
lists the requested URLs in order with the statuses of their responses, follows one `Location`
after the other, and ends at the final URL. -/
structure ChainOf (U : UrlCrate) (net : Network) (chainStartedHttps : Bool) (startUrl : String)
    (maxHops : ℕ) (requests : List String) (finalUrl : String) (chain : List (String × ℕ))
    (finalResponse : Option Response) : Prop where
  nonempty : chain ≠ []
  length_le : chain.length ≤ maxHops
  head : chain.head?.map Prod.fst = some startUrl
  requested : chain.map Prod.fst = requests
  status_ne_zero : ∀ entry ∈ chain, entry.2 ≠ 0
  last : chain.getLast?.map Prod.fst = some finalUrl
  hop : ∀ i entry next, chain[i]? = some entry → chain[i + 1]? = some next →
    Hop U net chainStartedHttps i entry.1 entry.2 next.1
  response : ∀ entry, chain.getLast? = some entry →
    (finalResponse.isSome ↔ isRedirectStatus entry.2 = false)

/-- The entries recorded by the whole loop satisfy the promise. -/
theorem Recorded.chainOf {startUrl finalUrl : String} {requests : List String}
    {chain : List (String × ℕ)} {finalResponse : Option Response}
    (h : Recorded U net chainStartedHttps 0 maxHops startUrl requests chain finalUrl
      finalResponse) :
    ChainOf U net chainStartedHttps startUrl maxHops requests finalUrl chain finalResponse := by
  obtain ⟨status, hlast, hsome⟩ := h.last
  refine ⟨?_, h.length_le, h.walk.head, h.requested, ?_, by simp [hlast], ?_, ?_⟩
  · rintro rfl
    cases hlast
  · intro entry hentry
    obtain ⟨i, hi⟩ := List.getElem?_of_mem hentry
    obtain ⟨resp, -, hcode⟩ := h.walk.status_at hi
    have hlower := resp.status.lower
    omega
  · intro i entry next hentry hnext
    simpa using h.walk.hop_at hentry hnext
  · intro entry hentry
    cases hlast.symm.trans hentry
    exact hsome

/-- Whatever the servers answer, every URL that the walker requests passed the check, a walk that
starts on `https` requests `https` URLs only, and a successful walk returns the chain of the
requests that it made. -/
theorem resolve_redirect_chain_safe (U : UrlCrate) (net : Network) (startUrl : String)
    (maxHops : ℕ) (hmaxHops : 0 < maxHops) :
    (∀ url ∈ (resolveRedirectChain U net startUrl maxHops false).requests, Safe U url) ∧
    ((U.parse startUrl).map U.scheme = some "https" →
      ∀ url ∈ (resolveRedirectChain U net startUrl maxHops false).requests,
        (U.parse url).map U.scheme = some "https") ∧
    ∀ finalUrl chain resp,
      (resolveRedirectChain U net startUrl maxHops false).result = .ok (finalUrl, chain, resp) →
        ChainOf U net ((U.parse startUrl).map U.scheme == some "https") startUrl maxHops
          (resolveRedirectChain U net startUrl maxHops false).requests finalUrl chain resp := by
  cases hvalid : validateUrlSafe U startUrl with
  | error reason => simp [resolveRedirectChain, hmaxHops.ne', hvalid]
  | ok =>
      have hstart : Admissible U ((U.parse startUrl).map U.scheme == some "https") startUrl :=
        ⟨hvalid, fun hhttps => by simpa using hhttps⟩
      simp only [resolveRedirectChain, hmaxHops.ne', if_false, Bool.false_and, Bool.false_eq_true,
        hvalid]
      refine ⟨fun url hurl => (walk_redirects_admissible hstart url hurl).1,
        fun hhttps url hurl => (walk_redirects_admissible hstart url hurl).2 (by simp [hhttps]), ?_⟩
      intro finalUrl chain resp hok
      cases hwalk : (walkRedirects U net maxHops ((U.parse startUrl).map U.scheme == some "https")
          false maxHops 0 (.start startUrl)).result with
      | error reason => simp [hwalk, Except.map] at hok
      | ok walker =>
          obtain ⟨entries, hchain, hrecorded⟩ :=
            walk_redirects_recorded (by omega) hmaxHops rfl hwalk
          obtain ⟨status, hlast, -⟩ := hrecorded.last
          -- The guard after the loop never appends the entry with status 0.
          have hguard : walker.chain.getLast?.map Prod.fst = some walker.lastFetchedUrl := by
            simp [hchain, Walker.start, hlast]
          simp only [hwalk, Except.map, if_pos hguard, Except.ok.injEq, Prod.mk.injEq] at hok
          obtain ⟨rfl, rfl, rfl⟩ := hok
          rw [hchain]
          exact hrecorded.chainOf

/-- A server that sends its root to `/home`. -/
def exampleNetwork : Network
  | 0, "https://example.com/" =>
      some ⟨⟨301, by decide, by decide⟩, [("location", [47, 104, 111, 109, 101])], []⟩
  | 1, "https://example.com/home" => some ⟨⟨200, by decide, by decide⟩, [], []⟩
  | _, _ => none

/-- The walk from the root of the example server. -/
theorem resolve_redirect_chain_safe_example :
    (resolveRedirectChain exampleUrlCrate exampleNetwork "https://example.com/" 5 false).result =
      .ok ("https://example.com/home",
        [("https://example.com/", 301), ("https://example.com/home", 200)],
        some ⟨⟨200, by decide, by decide⟩, [], []⟩) ∧
    ∀ url ∈ (resolveRedirectChain exampleUrlCrate exampleNetwork "https://example.com/" 5
      false).requests, Safe exampleUrlCrate url :=
  ⟨by decide +kernel,
    (resolve_redirect_chain_safe exampleUrlCrate exampleNetwork "https://example.com/" 5
      (by decide)).1⟩

end DomainStatus.Fetch
