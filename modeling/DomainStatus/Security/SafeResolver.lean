import DomainStatus.Security.AddressRanges

/-!
# The resolver of the clients

`SafeResolver` of `src/security/safe_resolver.rs`, which every client that
`src/initialization/client.rs` builds looks host names up with, and the addresses that such a client
may connect to. The name servers may answer each lookup as they like, also the second one for a name
otherwise than the first. Read `connections_public_iff` first: only a host that is an address itself
gets a client to one that is not public.
-/

namespace DomainStatus.Security

/-- An address with a port. -/
structure SocketAddr where
  ip : IpAddr
  port : ℕ
  deriving DecidableEq

/-- The address is not one of those that are refused. -/
def isPublicIp (ip : IpAddr) : Bool :=
  !isPrivateIp ip

/-- What the name servers answer to the lookup with this number for this name, `none` being a
failure. -/
abbrev Dns := ℕ → String → Option (List IpAddr)

/-- Why a name has no address to connect to. -/
inductive ResolveError where
  | lookup (name : String)
  | blocked (name : String)
  deriving DecidableEq

/-- The text of the error that the resolver makes itself. -/
def ResolveError.toText : ResolveError → Option String
  | .lookup _ => none
  | .blocked name =>
      some ("SSRF blocked: all resolved IPs for '" ++ name ++ "' are private/reserved")

/-- The public addresses of an answer, in its order. An answer without any is an error. -/
def filterPublicSocketAddrs (ips : List IpAddr) (name : String) :
    Except ResolveError (List SocketAddr) :=
  let safeAddrs := (ips.map fun ip => { ip, port := 0 : SocketAddr }).filter fun addr =>
    isPublicIp addr.ip
  if safeAddrs.isEmpty then .error (.blocked name) else .ok safeAddrs

/-- `SafeResolver::resolve`. -/
def SafeResolver.resolve (dns : Dns) (number : ℕ) (name : String) :
    Except ResolveError (List SocketAddr) :=
  match dns number name with
  | none => .error (.lookup name)
  | some ips => filterPublicSocketAddrs ips name

variable (U : UrlCrate)

/-- The addresses that a client may connect to for a request. A host that is an address is not
looked up. -/
def clientAddrs (dns : Dns) (number : ℕ) (url : String) : List IpAddr :=
  match (U.parse url).bind U.host with
  | none => []
  | some (.ipv4 ip) => [.v4 ip]
  | some (.ipv6 ip) => [.v6 ip]
  | some (.domain name) =>
      match SafeResolver.resolve dns number name with
      | .error _ => []
      | .ok addrs => addrs.map SocketAddr.ip

/-- The addresses that a client may connect to for requests one after the other. -/
def connections (dns : Dns) (urls : List String) : List IpAddr :=
  urls.zipIdx.flatMap fun request => clientAddrs U dns request.2 request.1

/-- The host of the URL is an address that is not public. -/
def hasPrivateAddress (url : String) : Bool :=
  match (U.parse url).bind U.host with
  | some (.ipv4 ip) => isPrivateIpv4 ip
  | some (.ipv6 ip) => isPrivateIpv6 ip
  | _ => false

variable {U} {dns : Dns} {number : ℕ} {url name : String} {ips : List IpAddr}

/-- What the filter lets through are the public addresses, at least one. -/
theorem filterPublicSocketAddrs_eq_ok {addrs : List SocketAddr}
    (h : filterPublicSocketAddrs ips name = .ok addrs) :
    addrs.map SocketAddr.ip = ips.filter isPublicIp ∧ addrs ≠ [] := by
  unfold filterPublicSocketAddrs at h
  simp only at h
  split at h
  case isTrue => cases h
  case isFalse hsome =>
    cases h
    constructor
    · rw [List.filter_map, List.map_map]
      exact List.map_id _
    · simpa using hsome

/-- The resolver gives public addresses, and only such that the name servers gave. -/
theorem SafeResolver.resolve_public {addrs : List SocketAddr}
    (h : SafeResolver.resolve dns number name = .ok addrs) :
    ∀ ip ∈ addrs.map SocketAddr.ip, isPublicIp ip = true ∧
      ∃ ips, dns number name = some ips ∧ ip ∈ ips := by
  unfold SafeResolver.resolve at h
  cases hdns : dns number name with
  | none =>
      rw [hdns] at h
      cases h
  | some ips =>
      rw [hdns] at h
      obtain ⟨hips, -⟩ := filterPublicSocketAddrs_eq_ok h
      intro ip hip
      rw [hips] at hip
      obtain ⟨hmem, hpublic⟩ := List.mem_filter.mp hip
      exact ⟨hpublic, ips, rfl, hmem⟩

/-- For one request. -/
theorem clientAddrs_public_iff (U : UrlCrate) (dns : Dns) (number : ℕ) (url : String) :
    (∀ ip ∈ clientAddrs U dns number url, isPublicIp ip = true) ↔
      hasPrivateAddress U url = false := by
  unfold clientAddrs hasPrivateAddress
  cases (U.parse url).bind U.host with
  | none => simp
  | some host =>
      cases host with
      | ipv4 ip => simp [isPublicIp, isPrivateIp]
      | ipv6 ip => simp [isPublicIp, isPrivateIp]
      | domain name =>
          simp only [iff_true]
          cases hresolve : SafeResolver.resolve dns number name with
          | error reason => simp
          | ok addrs => exact fun ip hip => (SafeResolver.resolve_public hresolve ip hip).1

/-- Whatever the name servers answer, all connections are to public addresses exactly if no host is
an address that is not public. -/
theorem connections_public_iff (U : UrlCrate) (dns : Dns) (urls : List String) :
    (∀ ip ∈ connections U dns urls, isPublicIp ip = true) ↔
      ∀ url ∈ urls, hasPrivateAddress U url = false := by
  constructor
  · intro h url hurl
    obtain ⟨i, hi⟩ := List.getElem?_of_mem hurl
    refine (clientAddrs_public_iff U dns i url).mp fun ip hip => h ip ?_
    exact List.mem_flatMap.mpr ⟨(url, i), List.mk_mem_zipIdx_iff_getElem?.mpr hi, hip⟩
  · intro h ip hip
    obtain ⟨request, hrequest, hip⟩ := List.mem_flatMap.mp hip
    have hurl : request.1 ∈ urls := List.fst_mem_of_mem_zipIdx hrequest
    exact (clientAddrs_public_iff U dns request.2 request.1).mpr (h _ hurl) ip hip

/-- The host of a URL that passed the check is no such address. -/
theorem Safe.hasPrivateAddress (h : Safe U url) : hasPrivateAddress U url = false := by
  unfold Safe validateUrlSafe at h
  unfold Security.hasPrivateAddress
  split at h
  · cases h
  next parsed hparse =>
    rw [hparse, Option.bind_some]
    split at h
    · cases h
    · split at h
      next domain hhost => rw [hhost]
      next ip hhost =>
        rw [hhost]
        split at h
        case isTrue => cases h
        case isFalse hpublic => exact Bool.eq_false_of_not_eq_true hpublic
      next ip hhost =>
        rw [hhost]
        split at h
        case isTrue => cases h
        case isFalse hpublic => exact Bool.eq_false_of_not_eq_true hpublic
      · cases h

end DomainStatus.Security
