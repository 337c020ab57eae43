import DomainStatus.Security.SafeResolver
import Mathlib.Data.List.TakeWhile

/-!
# Connections for certificates

How `get_ssl_certificate_info` of `src/tls/mod.rs` connects to a host: it looks the host up, keeps
the public addresses, and tries them one after the other, those of IPv4 first. The handshake over
the connection is left out. Read `tls_connects_public` first.
-/

namespace DomainStatus.Tls

open Security

/-- What becomes of a connection to an address. -/
inductive ConnectOutcome where
  | connected
  | failed (text : String)
  | timeout
  deriving DecidableEq

/-- Why there is no connection for a certificate. -/
inductive TlsError where
  | invalidDomain (domain : String)
  | unsafeUrl (reason : UnsafeUrl)
  | lookup (domain : String)
  | noPublicAddress (domain : String)
  | unreachable (domain : String) (lastErrors : List (SocketAddr × ConnectOutcome))
  deriving DecidableEq

/-- The addresses that were tried, and the one that was connected. -/
structure TlsRun where
  tried : List SocketAddr
  result : Except TlsError SocketAddr

/-- The address is one of IPv4. -/
def isIpv4 : IpAddr → Bool
  | .v4 _ => true
  | .v6 _ => false

/-- The addresses of IPv4 before the others, each kind in its order. -/
def orderPublicAddrsIpv4First (ips : List IpAddr) : List IpAddr :=
  (ips.partition isIpv4).1 ++ (ips.partition isIpv4).2

/-- The public addresses of an answer, on port 443. -/
def publicTlsSocketAddrs (domain : String) (ips : List IpAddr) :
    Except TlsError (List SocketAddr) :=
  let addrs := orderPublicAddrsIpv4First (ips.filter isPublicIp)
  if addrs.isEmpty then .error (.noPublicAddress domain)
  else .ok (addrs.map fun ip => { ip, port := 443 })

/-- The loop over the addresses, with the errors of those before. -/
def connectTlsTcp (domain : String) (tcp : SocketAddr → ConnectOutcome)
    (lastErrors : List (SocketAddr × ConnectOutcome)) : List SocketAddr → TlsRun
  | [] => { tried := [], result := .error (.unreachable domain lastErrors) }
  | socketAddr :: rest =>
      match tcp socketAddr with
      | .connected => { tried := [socketAddr], result := .ok socketAddr }
      | outcome =>
          let run := connectTlsTcp domain tcp (lastErrors ++ [(socketAddr, outcome)]) rest
          { run with tried := socketAddr :: run.tried }

variable (U : UrlCrate) (serverName : String → Bool) (dns : Dns) (tcp : SocketAddr → ConnectOutcome)

/-- The addresses to connect to, if the host may be contacted and has a public one. -/
def resolvePublicTlsAddrs (number : ℕ) (domain : String) : Except TlsError (List SocketAddr) :=
  match validateUrlSafe U ("https://" ++ domain ++ "/") with
  | .error reason => .error (.unsafeUrl reason)
  | .ok () =>
      match dns number domain with
      | none => .error (.lookup domain)
      | some ips => publicTlsSocketAddrs domain ips

/-- The connection of `get_ssl_certificate_info`. `serverName` says which names the crate `rustls`
takes. -/
def getSslConnection (number : ℕ) (domain : String) : TlsRun :=
  if !serverName domain then { tried := [], result := .error (.invalidDomain domain) }
  else
    match resolvePublicTlsAddrs U dns number domain with
    | .error reason => { tried := [], result := .error reason }
    | .ok addrs => connectTlsTcp domain tcp [] addrs

variable {U serverName dns tcp} {number : ℕ} {domain : String}

/-- The addresses are tried in their order up to the first that connects. -/
theorem connectTlsTcp_spec (domain : String) (tcp : SocketAddr → ConnectOutcome)
    (lastErrors : List (SocketAddr × ConnectOutcome)) (addrs : List SocketAddr) :
    ((∀ addr ∈ addrs, tcp addr ≠ .connected) ∧
      connectTlsTcp domain tcp lastErrors addrs =
        { tried := addrs
          result := .error (.unreachable domain
            (lastErrors ++ addrs.map fun addr => (addr, tcp addr))) }) ∨
    ∃ before addr behind, addrs = before ++ addr :: behind ∧ tcp addr = .connected ∧
      (∀ other ∈ before, tcp other ≠ .connected) ∧
      connectTlsTcp domain tcp lastErrors addrs =
        { tried := before ++ [addr], result := .ok addr } := by
  induction addrs generalizing lastErrors with
  | nil =>
      refine .inl ⟨nofun, ?_⟩
      rw [connectTlsTcp, List.map_nil, List.append_nil]
  | cons addr rest ih =>
      cases houtcome : tcp addr with
      | connected =>
          refine .inr ⟨[], addr, rest, rfl, houtcome, nofun, ?_⟩
          rw [connectTlsTcp, houtcome]
          rfl
      | failed text | timeout =>
          have hne : tcp addr ≠ .connected := by
            rw [houtcome]
            exact ConnectOutcome.noConfusion
          have hstep : connectTlsTcp domain tcp lastErrors (addr :: rest) =
              { connectTlsTcp domain tcp (lastErrors ++ [(addr, tcp addr)]) rest with
                tried := addr ::
                  (connectTlsTcp domain tcp (lastErrors ++ [(addr, tcp addr)]) rest).tried } := by
            rw [connectTlsTcp, houtcome]
          rcases ih (lastErrors ++ [(addr, tcp addr)]) with ⟨hall, hrun⟩ | hfound
          · refine .inl ⟨fun other hother => ?_, ?_⟩
            · rcases List.mem_cons.mp hother with rfl | hother
              · exact hne
              · exact hall other hother
            · rw [hstep, hrun, List.append_assoc]
              rfl
          · obtain ⟨before, found, behind, rfl, hfound, hbefore, hrun⟩ := hfound
            refine .inr ⟨addr :: before, found, behind, rfl, hfound, fun other hother => ?_, ?_⟩
            · rcases List.mem_cons.mp hother with rfl | hother
              · exact hne
              · exact hbefore other hother
            · rw [hstep, hrun]
              rfl

/-- The public addresses of an answer, those of IPv4 first, else in their order. -/
def publicAddrs (ips : List IpAddr) : List SocketAddr :=
  (ips.filter fun ip => isPublicIp ip && isIpv4 ip).map (fun ip => { ip, port := 443 }) ++
    (ips.filter fun ip => isPublicIp ip && !isIpv4 ip).map fun ip => { ip, port := 443 }

/-- The candidates are the public addresses, if there are any. -/
theorem publicTlsSocketAddrs_eq (domain : String) (ips : List IpAddr) :
    publicTlsSocketAddrs domain ips =
      if publicAddrs ips = [] then .error (.noPublicAddress domain) else .ok (publicAddrs ips) := by
  have hsplit : (orderPublicAddrsIpv4First (ips.filter isPublicIp)).map
      (fun ip => { ip, port := 443 : SocketAddr }) = publicAddrs ips := by
    rw [orderPublicAddrsIpv4First, List.partition_eq_filter_filter, List.filter_filter,
      List.filter_filter, List.map_append, publicAddrs]
    simp [Bool.and_comm]
  unfold publicTlsSocketAddrs
  simp only [hsplit]
  simp only [← hsplit, List.map_eq_nil_iff, List.isEmpty_iff]

/-- The public addresses among those of a name. -/
theorem mem_publicAddrs {ips : List IpAddr} {addr : SocketAddr} :
    addr ∈ publicAddrs ips ↔ addr.ip ∈ ips ∧ isPublicIp addr.ip = true ∧ addr.port = 443 := by
  obtain ⟨ip, port⟩ := addr
  cases hv4 : isIpv4 ip <;> grind [publicAddrs]

/-- The addresses that may be tried for a certificate: the public ones of a host whose name and URL
are accepted and that is found. -/
def candidates (U : UrlCrate) (serverName : String → Bool) (dns : Dns) (number : ℕ)
    (domain : String) : List SocketAddr :=
  if serverName domain = true ∧ Safe U ("https://" ++ domain ++ "/") then
    ((dns number domain).map publicAddrs).getD []
  else []

/-- A candidate is a public address that the name has. -/
theorem mem_candidates {addr : SocketAddr}
    (h : addr ∈ candidates U serverName dns number domain) :
    isPublicIp addr.ip = true ∧ addr.port = 443 ∧
      ∃ ips, dns number domain = some ips ∧ addr.ip ∈ ips := by
  rw [candidates] at h
  split_ifs at h
  · cases hdns : dns number domain with
    | none =>
        rw [hdns] at h
        cases h
    | some ips =>
        rw [hdns] at h
        obtain ⟨hip, hpublic, hport⟩ := mem_publicAddrs.mp h
        exact ⟨hpublic, hport, ips, rfl, hip⟩
  · cases h

/-- A run takes the first address that can be reached, tries none behind it, and fails only when
none can be reached. -/
structure TakesFirst (tcp : SocketAddr → ConnectOutcome) (addrs : List SocketAddr)
    (run : TlsRun) : Prop where
  connected : ∀ addr, run.result = .ok addr ↔ addrs.find? (tcp · = .connected) = some addr
  failed : (∃ reason, run.result = .error reason) ↔ ∀ addr ∈ addrs, tcp addr ≠ .connected
  tried : run.tried = addrs.takeWhile (tcp · ≠ .connected) ++
    (addrs.find? (tcp · = .connected)).toList

/-- Without an address to try, a run fails before it tries one. -/
theorem takesFirst_nil (reason : TlsError) :
    TakesFirst tcp [] { tried := [], result := .error reason } :=
  ⟨fun _ => ⟨nofun, nofun⟩, ⟨fun _ => nofun, fun _ => ⟨reason, rfl⟩⟩, rfl⟩

/-- The loop over the candidates takes the first that can be reached. -/
theorem takesFirst_connectTlsTcp (domain : String) (tcp : SocketAddr → ConnectOutcome)
    (addrs : List SocketAddr) : TakesFirst tcp addrs (connectTlsTcp domain tcp [] addrs) := by
  rcases connectTlsTcp_spec domain tcp [] addrs with ⟨hall, hrun⟩ | hfound
  · have hnone : addrs.find? (tcp · = .connected) = none :=
      List.find?_eq_none.mpr fun addr haddr h => hall addr haddr (of_decide_eq_true h)
    have htried : addrs.takeWhile (tcp · ≠ .connected) = addrs :=
      List.takeWhile_eq_self_iff.mpr fun addr haddr => decide_eq_true (hall addr haddr)
    rw [hrun]
    refine ⟨fun addr => ?_, iff_of_true ⟨_, rfl⟩ hall, ?_⟩
    · rw [hnone]
      exact ⟨nofun, nofun⟩
    · rw [hnone, htried]
      exact (List.append_nil addrs).symm
  · obtain ⟨before, found, behind, rfl, hconnected, hbefore, hrun⟩ := hfound
    have hfind : (before ++ found :: behind).find? (tcp · = .connected) = some found := by
      rw [List.find?_append, List.find?_eq_none.mpr fun addr haddr h =>
        hbefore addr haddr (of_decide_eq_true h), Option.none_or, List.find?_cons, hconnected]
      rfl
    have htried : (before ++ found :: behind).takeWhile (tcp · ≠ .connected) = before := by
      rw [List.takeWhile_append_of_pos fun addr haddr => decide_eq_true (hbefore addr haddr),
        List.takeWhile_cons_of_neg (by simp [hconnected]), List.append_nil]
    rw [hrun]
    refine ⟨fun addr => ?_, iff_of_false nofun fun h => ?_, ?_⟩
    · rw [hfind]
      exact ⟨fun h => congrArg some (Except.ok.inj h), fun h => congrArg _ (Option.some.inj h)⟩
    · exact h found (List.mem_append_right _ List.mem_cons_self) hconnected
    · rw [hfind, htried]
      rfl

/-- The connection is to the first candidate that can be reached. -/
theorem takesFirst_getSslConnection (U : UrlCrate) (serverName : String → Bool) (dns : Dns)
    (tcp : SocketAddr → ConnectOutcome) (number : ℕ) (domain : String) :
    TakesFirst tcp (candidates U serverName dns number domain)
      (getSslConnection U serverName dns tcp number domain) := by
  unfold getSslConnection resolvePublicTlsAddrs candidates
  cases hname : serverName domain with
  | false =>
      rw [if_neg fun h => Bool.false_ne_true h.1]
      exact takesFirst_nil _
  | true =>
      cases hsafe : validateUrlSafe U ("https://" ++ domain ++ "/") with
      | error reason =>
          rw [if_neg fun h => by rw [Safe, hsafe] at h; cases h.2]
          exact takesFirst_nil _
      | ok =>
          rw [if_pos ⟨rfl, hsafe⟩]
          cases hdns : dns number domain with
          | none => exact takesFirst_nil _
          | some ips =>
              simp only [Bool.not_true, Bool.false_eq_true, if_false, publicTlsSocketAddrs_eq]
              by_cases hnone : publicAddrs ips = []
              · rw [if_pos hnone, Option.map_some, Option.getD_some, hnone]
                exact takesFirst_nil _
              · rw [if_neg hnone]
                exact takesFirst_connectTlsTcp domain tcp _

/-- Only candidates are tried. -/
theorem TakesFirst.subset {addrs : List SocketAddr} {run : TlsRun}
    (h : TakesFirst tcp addrs run) : run.tried ⊆ addrs := by
  intro addr haddr
  rw [h.tried] at haddr
  rcases List.mem_append.mp haddr with hbefore | hfound
  · exact (List.takeWhile_subset _) hbefore
  · exact List.mem_of_find?_eq_some (Option.mem_toList.mp hfound)

/-- What is tried is public. -/
theorem getSslConnection_tried_public {addr : SocketAddr}
    (h : addr ∈ (getSslConnection U serverName dns tcp number domain).tried) :
    isPublicIp addr.ip = true ∧ addr.port = 443 ∧
      ∃ ips, dns number domain = some ips ∧ addr.ip ∈ ips :=
  mem_candidates ((takesFirst_getSslConnection U serverName dns tcp number domain).subset h)

/-- Whatever the name servers answer and whichever addresses can be reached, the connection for a
certificate has public addresses of the host only as candidates, on port 443, in the order of the
answer with those of IPv4 first. It takes the first that can be reached, tries none behind it, and
fails exactly when none can be. -/
theorem tls_connects_public (U : UrlCrate) (serverName : String → Bool) (dns : Dns)
    (tcp : SocketAddr → ConnectOutcome) (number : ℕ) (domain : String) :
    (∀ addr ∈ candidates U serverName dns number domain,
        isPublicIp addr.ip = true ∧ addr.port = 443 ∧
          ∃ ips, dns number domain = some ips ∧ addr.ip ∈ ips) ∧
      TakesFirst tcp (candidates U serverName dns number domain)
        (getSslConnection U serverName dns tcp number domain) :=
  ⟨fun _ h => mem_candidates h, takesFirst_getSslConnection U serverName dns tcp number domain⟩

/-- The answer for a name with a private address, one of IPv6 and two of IPv4. -/
def exampleDns : Dns := fun _ _ =>
  some [.v4 { a := 10, b := 0, c := 0, d := 1 },
    .v6 { s0 := 0x2606, s1 := 0x4700, s2 := 0, s3 := 0, s4 := 0, s5 := 0, s6 := 0, s7 := 1 },
    .v4 { a := 1, b := 0, c := 0, d := 1 }, .v4 { a := 1, b := 1, c := 1, d := 1 }]

/-- The first address of IPv4 refuses. -/
def exampleTcp (addr : SocketAddr) : ConnectOutcome :=
  if addr.ip = .v4 { a := 1, b := 0, c := 0, d := 1 } then .failed "connection refused"
  else .connected

/-- The second address is the first that can be reached. -/
theorem tls_connects_public_second :
    let run := getSslConnection exampleUrlCrate (fun _ => true) exampleDns exampleTcp 0
      "example.com"
    run.result = .ok { ip := .v4 { a := 1, b := 1, c := 1, d := 1 }, port := 443 } ∧
      run.tried = [{ ip := .v4 { a := 1, b := 0, c := 0, d := 1 }, port := 443 },
        { ip := .v4 { a := 1, b := 1, c := 1, d := 1 }, port := 443 }] := by
  obtain ⟨-, hfirst⟩ := tls_connects_public exampleUrlCrate (fun _ => true) exampleDns exampleTcp 0
    "example.com"
  exact ⟨(hfirst.connected _).mpr (by decide +kernel), hfirst.tried.trans (by decide +kernel)⟩

end DomainStatus.Tls
