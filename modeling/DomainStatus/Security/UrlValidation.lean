import Mathlib.Data.UInt
import Mathlib.Tactic.Common

/-!
# URL validation

`validate_url_safe` and the address predicates of `src/security/url_validation.rs`. The URL parser
is the crate `url`, which is not part of the repository: `UrlCrate` collects the operations that
the program uses, with the documented facts about them that the proofs rest on.
-/

namespace DomainStatus.Security

/-- `std::net::Ipv4Addr` by its octets. -/
structure Ipv4Addr where
  a : UInt8
  b : UInt8
  c : UInt8
  d : UInt8
  deriving DecidableEq, Repr

namespace Ipv4Addr

/-- `127.0.0.0/8`. -/
def isLoopback (ip : Ipv4Addr) : Bool := ip.a == 127

/-- `10.0.0.0/8`, `172.16.0.0/12` and `192.168.0.0/16`. -/
def isPrivate (ip : Ipv4Addr) : Bool :=
  ip.a == 10 || (ip.a == 172 && 16 ≤ ip.b && ip.b ≤ 31) || (ip.a == 192 && ip.b == 168)

/-- `169.254.0.0/16`. -/
def isLinkLocal (ip : Ipv4Addr) : Bool := ip.a == 169 && ip.b == 254

/-- `224.0.0.0/4`. -/
def isMulticast (ip : Ipv4Addr) : Bool := 224 ≤ ip.a && ip.a ≤ 239

/-- The address for all hosts. -/
def isBroadcast (ip : Ipv4Addr) : Bool :=
  ip.a == 255 && ip.b == 255 && ip.c == 255 && ip.d == 255

/-- The three documentation nets of RFC 5737. -/
def isDocumentation (ip : Ipv4Addr) : Bool :=
  (ip.a == 192 && ip.b == 0 && ip.c == 2) || (ip.a == 198 && ip.b == 51 && ip.c == 100) ||
    (ip.a == 203 && ip.b == 0 && ip.c == 113)

end Ipv4Addr

/-- The single table of IPv4 ranges that the scanner refuses. -/
def isPrivateIpv4 (ip : Ipv4Addr) : Bool :=
  if ip.isLoopback || ip.isPrivate || ip.isLinkLocal || ip.isMulticast || ip.isBroadcast ||
      ip.isDocumentation then true
  else
    ip.a == 0 || (ip.a == 100 && 64 ≤ ip.b && ip.b ≤ 127) ||
      (ip.a == 198 && (ip.b == 18 || ip.b == 19)) || (ip.a == 192 && ip.b == 0 && ip.c == 0) ||
      240 ≤ ip.a

/-- `std::net::Ipv6Addr` by its segments. -/
structure Ipv6Addr where
  s0 : UInt16
  s1 : UInt16
  s2 : UInt16
  s3 : UInt16
  s4 : UInt16
  s5 : UInt16
  s6 : UInt16
  s7 : UInt16
  deriving DecidableEq, Repr

namespace Ipv6Addr

/-- The IPv4 address in the last two segments. -/
def tail (ip : Ipv6Addr) : Ipv4Addr :=
  { a := (ip.s6 >>> 8).toUInt8, b := ip.s6.toUInt8, c := (ip.s7 >>> 8).toUInt8,
    d := ip.s7.toUInt8 }

/-- The first five groups are zero. -/
def leadingZeros (ip : Ipv6Addr) : Bool :=
  ip.s0 == 0 && ip.s1 == 0 && ip.s2 == 0 && ip.s3 == 0 && ip.s4 == 0

/-- The address of `::ffff:a.b.c.d`. -/
def toIpv4Mapped (ip : Ipv6Addr) : Option Ipv4Addr :=
  if ip.leadingZeros && ip.s5 == 0xffff then some ip.tail else none

/-- The address of `::ffff:a.b.c.d` or of the deprecated `::a.b.c.d`. -/
def toIpv4 (ip : Ipv6Addr) : Option Ipv4Addr :=
  if ip.leadingZeros && (ip.s5 == 0 || ip.s5 == 0xffff) then some ip.tail else none

/-- The address `::`. -/
def isUnspecified (ip : Ipv6Addr) : Bool :=
  ip.leadingZeros && ip.s5 == 0 && ip.s6 == 0 && ip.s7 == 0

/-- The address `::1`. -/
def isLoopback (ip : Ipv6Addr) : Bool :=
  ip.leadingZeros && ip.s5 == 0 && ip.s6 == 0 && ip.s7 == 1

/-- `fc00::/7`. -/
def isUniqueLocal (ip : Ipv6Addr) : Bool := ip.s0 &&& 0xfe00 == 0xfc00

/-- `fe80::/10`. -/
def isUnicastLinkLocal (ip : Ipv6Addr) : Bool := ip.s0 &&& 0xffc0 == 0xfe80

/-- `ff00::/8`. -/
def isMulticast (ip : Ipv6Addr) : Bool := ip.s0 &&& 0xff00 == 0xff00

end Ipv6Addr

/-- The IPv6 ranges that the scanner refuses. Mapped and compatible addresses are judged by their
IPv4 address. -/
def isPrivateIpv6 (ip : Ipv6Addr) : Bool :=
  match ip.toIpv4Mapped with
  | some ipv4 => isPrivateIpv4 ipv4
  | none =>
      if ip.isUnspecified || ip.isLoopback || ip.isUniqueLocal || ip.isUnicastLinkLocal ||
          ip.isMulticast then true
      else if ip.s0 == 0x2001 && ip.s1 == 0x0db8 then true
      else
        match ip.toIpv4 with
        | some ipv4 => isPrivateIpv4 ipv4
        | none => false

/-- `url::Host`. -/
inductive Host where
  | domain (name : String)
  | ipv4 (ip : Ipv4Addr)
  | ipv6 (ip : Ipv6Addr)
  deriving DecidableEq

/-- What the program uses of the crate `url`. A URL serialises to a string that parses back to the
same URL. The scheme, host and port of an `http` or `https` URL, written out with a path behind
them, parse to a URL of that scheme, host and port. -/
structure UrlCrate where
  Url : Type
  parse : String → Option Url
  join : Url → String → Option Url
  toString : Url → String
  scheme : Url → String
  host : Url → Option Host
  hostStr : Url → Option String
  port : Url → Option ℕ
  parse_toString : ∀ url, parse (toString url) = some url
  hostStr_isSome : ∀ url, (hostStr url).isSome = (host url).isSome
  parse_origin : ∀ (url : Url) (name rest : String),
    (scheme url = "http" ∨ scheme url = "https") → hostStr url = some name →
    ∃ other, parse (scheme url ++ "://" ++ name ++
        ((port url).elim "" fun number => ":" ++ Nat.repr number) ++ "/" ++ rest) = some other ∧
      scheme other = scheme url ∧ host other = host url ∧ port other = port url

/-- Why a URL is refused. -/
inductive UnsafeUrl where
  | unparsable (url : String)
  | scheme (scheme url : String)
  | localhost (domain url : String)
  | privateIpv4 (ip : Ipv4Addr) (url : String)
  | privateIpv6 (ip : Ipv6Addr) (url : String)
  | noHost (url : String)
  deriving DecidableEq

/-- `str::to_lowercase`. The hosts that it is applied to are ASCII. -/
def toLowercase (text : String) : String :=
  text.map Char.toLower

/-- The names of the local host, with and without the trailing dot. -/
def isLocalhostDomain (domain : String) : Bool :=
  let domainLower := toLowercase domain
  ["localhost", "localhost.", "localhost.localdomain", "localhost.localdomain."].contains
      domainLower ||
    domainLower.endsWith ".localhost" || domainLower.endsWith ".localhost."

variable (U : UrlCrate)

/-- The check that every URL of a scan passes before it is requested. -/
def validateUrlSafe (urlStr : String) : Except UnsafeUrl Unit :=
  match U.parse urlStr with
  | none => .error (.unparsable urlStr)
  | some url =>
      if U.scheme url ≠ "http" ∧ U.scheme url ≠ "https" then
        .error (.scheme (U.scheme url) urlStr)
      else
        match U.host url with
        | some (.domain domain) =>
            if isLocalhostDomain domain then .error (.localhost domain urlStr) else .ok ()
        | some (.ipv4 ip) =>
            if isPrivateIpv4 ip then .error (.privateIpv4 ip urlStr) else .ok ()
        | some (.ipv6 ip) =>
            if isPrivateIpv6 ip then .error (.privateIpv6 ip urlStr) else .ok ()
        | none => .error (.noHost urlStr)

/-- The URL passes `validate_url_safe`. -/
def Safe (urlStr : String) : Prop :=
  validateUrlSafe U urlStr = .ok ()

instance (urlStr : String) : Decidable (Safe U urlStr) :=
  match h : validateUrlSafe U urlStr with
  | .ok () => isTrue h
  | .error _ => isFalse fun hsafe => by simp [Safe, h] at hsafe

variable {U}

/-- A URL that passes the check parses, is `http` or `https`, and has a host. -/
theorem Safe.parses {urlStr : String} (h : Safe U urlStr) :
    ∃ url, U.parse urlStr = some url ∧ (U.scheme url = "http" ∨ U.scheme url = "https") ∧
      (U.host url).isSome := by
  unfold Safe validateUrlSafe at h
  split at h
  · cases h
  next url hparse =>
    split at h
    case isTrue => cases h
    case isFalse hscheme =>
      refine ⟨url, hparse, ?_, ?_⟩
      · by_contra hnot
        exact hscheme (not_or.mp hnot)
      · cases hhost : U.host url with
        | none => simp [hhost] at h
        | some host => rfl

/-! ## An instance for concrete inputs -/

/-- The three origins that `exampleUrlCrate` knows. -/
inductive ExampleSite where
  | secure
  | plain
  | metadata
  deriving DecidableEq

namespace ExampleSite

/-- The scheme of an example site. -/
def scheme : ExampleSite → String
  | .secure => "https"
  | .plain | .metadata => "http"

/-- The text of the host of an example site. -/
def name : ExampleSite → String
  | .secure | .plain => "example.com"
  | .metadata => "169.254.169.254"

/-- The host of an example site. -/
def host : ExampleSite → Host
  | .secure | .plain => .domain "example.com"
  | .metadata => .ipv4 { a := 169, b := 254, c := 169, d := 254 }

/-- The text of a URL of the site up to the slash that starts its path. -/
def root (site : ExampleSite) : List Char :=
  (site.scheme ++ "://" ++ site.name ++ "/").toList

/-- The site of a URL and the text behind its root. -/
def parse (text : List Char) : Option (ExampleSite × List Char) :=
  [secure, plain, metadata].findSome? fun site =>
    (text.dropPrefix? site.root).map fun rest => (site, rest)

/-- The root of a site is parsed. -/
theorem parse_root (site : ExampleSite) (rest : List Char) :
    parse (site.root ++ rest) = some (site, rest) := by
  cases site <;> simp [parse, root, scheme, name, List.dropPrefix?]

/-- Only a text that starts with the root is parsed to the site. -/
theorem eq_root_of_parse {site : ExampleSite} {text rest : List Char}
    (h : parse text = some (site, rest)) : text = site.root ++ rest := by
  obtain ⟨other, -, hother⟩ := List.exists_of_findSome?_eq_some h
  obtain ⟨tail, htail, heq⟩ := Option.map_eq_some_iff.mp hother
  cases heq
  obtain ⟨lead, htext, hlead⟩ := List.dropPrefix?_eq_some_iff.mp htail
  rw [htext, eq_of_beq hlead]

end ExampleSite

/-- The crate `url` on the URLs of three origins. Only absolute paths are joined. -/
def exampleUrlCrate : UrlCrate where
  Url := ExampleSite × List Char
  parse text := ExampleSite.parse text.toList
  join
    | (site, _), text =>
        match text.toList with
        | '/' :: '/' :: _ => none
        | '/' :: rest => some (site, rest)
        | _ => none
  toString url := String.ofList (url.1.root ++ url.2)
  scheme url := url.1.scheme
  host url := some url.1.host
  hostStr url := some url.1.name
  port _ := none
  parse_toString url := by simp [ExampleSite.parse_root]
  hostStr_isSome _ := rfl
  parse_origin url name rest _ hname := by
    obtain ⟨site, path⟩ := url
    cases hname
    refine ⟨(site, rest.toList), ?_, rfl, rfl, rfl⟩
    rw [← ExampleSite.parse_root]
    simp [ExampleSite.root]

end DomainStatus.Security
