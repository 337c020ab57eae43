import DomainStatus.Fetch.ExternalScripts
import DomainStatus.Lib.Distinct
import DomainStatus.Lib.Lowercase
import DomainStatus.Storage.Models

/-!
# The hosts of a page's scripts

`collect_script_hosts` of `src/fetch/external_scripts.rs`, and which scripts count as the page's
own. The public suffix list knows names only. Its default rule takes the last two numbers of an
IPv4 address for a registrable domain: read `domainStr_address` first.
-/

namespace DomainStatus.Fetch

open Distinct Security Storage

section Collect

variable (U : UrlCrate) (psl : Psl) (pageUrl : String)

/-- The scripts of a page by their resolved URLs, with their hosts. -/
def scriptHosts (scriptSources : List String) : List (String × String) :=
  scriptSources.filterMap fun src =>
    (resolveScriptUrl U pageUrl src).bind fun abs => (urlHost U abs).map fun host => (abs, host)

/-- The first script of every host. -/
def collectScriptHosts (scriptSources : List String) : List ScriptHostInfo :=
  (unseen Prod.snd [] (scriptHosts U pageUrl scriptSources)).map fun (abs, host) =>
    { host
      registrableDomain := rootDomain psl host
      isFirstParty := isFirstPartyScript U psl pageUrl abs }

end Collect

/-! ## Kinds of hosts -/

/-- The last two numbers of an address, as they are written. -/
def lastOctets (ip : Ipv4Addr) : List Char :=
  (Nat.repr ip.c.toNat).toList ++ '.' :: (Nat.repr ip.d.toNat).toList

/-- An address, as it is written. -/
def ipv4Text (ip : Ipv4Addr) : List Char :=
  (Nat.repr ip.a.toNat).toList ++ '.' :: ((Nat.repr ip.b.toNat).toList ++ '.' :: lastOctets ip)

/-- The host is written as an address of IPv4. -/
def IsIpv4Text (host : String) : Prop :=
  ∃ ip, host.toList = ipv4Text ip

/-- Only IPv6 addresses stand in brackets. -/
def IsIpv6Text (host : String) : Prop :=
  host.toList.head? = some '['

/-- The host is written as an address. -/
def IsAddress (host : String) : Prop :=
  IsIpv4Text host ∨ IsIpv6Text host

/-- A list of labels ends with these labels. -/
def EndsWithLabels (name labels : List Char) : Prop :=
  name = labels ∨ ∃ front, name = front ++ '.' :: labels

/-- The first host is an IPv4 address, and the other one ends with its last two numbers. -/
def SharesOctets (address host : String) : Prop :=
  ∃ ip, address.toList = ipv4Text ip ∧ EndsWithLabels host.toList (lastOctets ip)

/-- What the program relies on of the crate `psl`: a registrable domain is the end of a name, and
stands for itself. A label alone has none, and no rule is about numbers, so that the default rule
takes the last two labels. -/
structure DefaultRule (psl : Psl) : Prop where
  domain_tail : ∀ {name domain}, psl.domainStr name = some domain →
    EndsWithLabels name.toList domain.toList
  domain_domain : ∀ {name domain}, psl.domainStr name = some domain →
    psl.domainStr domain = some domain
  domain_label : ∀ {name : String}, '.' ∉ name.toList → psl.domainStr name = none
  domain_number : ∀ {name : String} {label digits : List Char}, label ≠ [] → '.' ∉ label →
    digits ≠ [] → (∀ c ∈ digits, c.isDigit = true) →
    EndsWithLabels name.toList (label ++ '.' :: digits) →
    psl.domainStr name = some (String.ofList (label ++ '.' :: digits))

/-- A host with a bracket in it is an IPv6 address, which has no dots. -/
def BracketsAddresses (U : UrlCrate) : Prop :=
  ∀ {url name}, U.hostStr url = some name → '[' ∈ name.toList →
    name.toList.head? = some '[' ∧ '.' ∉ name.toList

/-- Scripts are classified by their hosts: as the page's own only when the hosts are equal or are
names of one registrable domain. -/
structure FirstPartyExact (U : UrlCrate) (psl : Psl) (pageUrl scriptUrl : String)
    (scriptSources : List String) (pageHost scriptHost : String) : Prop where
  names : isFirstPartyScript U psl pageUrl scriptUrl = true →
    pageHost = scriptHost ∨ (¬IsAddress pageHost ∧ ¬IsAddress scriptHost ∧
      ∃ domain, psl.domainStr pageHost = some domain ∧ psl.domainStr scriptHost = some domain)
  addresses : IsAddress pageHost → IsAddress scriptHost → pageHost ≠ scriptHost →
    isFirstPartyScript U psl pageUrl scriptUrl = false
  symmetric : isKnownThirdPartyScriptHost pageHost = false →
    isKnownThirdPartyScriptHost scriptHost = false →
    isFirstPartyScript U psl pageUrl scriptUrl = isFirstPartyScript U psl scriptUrl pageUrl
  hosts : (collectScriptHosts U psl pageUrl scriptSources).map ScriptHostInfo.host =
    ((scriptHosts U pageUrl scriptSources).map Prod.snd).eraseDups
  classified : ∀ abs host, (abs, host) ∈ scriptHosts U pageUrl scriptSources →
    ∃ info ∈ collectScriptHosts U psl pageUrl scriptSources, info.host = host ∧
      info.registrableDomain = rootDomain psl host ∧
      info.isFirstParty = isFirstPartyScript U psl pageUrl abs

variable {U : UrlCrate} {psl : Psl} {pageUrl scriptUrl : String} {scriptSources : List String}
  {pageHost scriptHost host : String} {ip : Ipv4Addr}

/-! ## Classification -/

/-- Two hosts with one registrable domain. -/
def sameRoot (psl : Psl) (pageHost scriptHost : String) : Bool :=
  match rootDomain psl pageHost, rootDomain psl scriptHost with
  | some pageRoot, some scriptRoot => Text.eqIgnoreAsciiCase pageRoot scriptRoot
  | _, _ => false

/-- To have one root is symmetric. -/
theorem sameRoot_comm : sameRoot psl pageHost scriptHost = sameRoot psl scriptHost pageHost := by
  rw [sameRoot, sameRoot]
  cases rootDomain psl pageHost with
  | none => cases rootDomain psl scriptHost <;> rfl
  | some pageRoot =>
      cases rootDomain psl scriptHost with
      | none => rfl
      | some scriptRoot => exact BEq.comm

/-- A script is of the page's party by its host. -/
theorem isFirstPartyScript_eq (hpage : urlHost U pageUrl = some pageHost)
    (hscript : urlHost U scriptUrl = some scriptHost) :
    isFirstPartyScript U psl pageUrl scriptUrl =
      (!isKnownThirdPartyScriptHost scriptHost &&
        (pageHost == scriptHost || sameRoot psl pageHost scriptHost)) := by
  simp only [isFirstPartyScript, hpage, hscript]
  cases isKnownThirdPartyScriptHost scriptHost with
  | true => simp only [if_true, Bool.not_true, Bool.false_and]
  | false =>
      cases hequal : pageHost == scriptHost with
      | true => simp
      | false =>
          rw [sameRoot]
          cases rootDomain psl pageHost <;> cases rootDomain psl scriptHost <;> simp

/-- The host decides. -/
theorem isFirstPartyScript_congr {otherUrl : String}
    (h : urlHost U scriptUrl = urlHost U otherUrl) :
    isFirstPartyScript U psl pageUrl scriptUrl = isFirstPartyScript U psl pageUrl otherUrl := by
  rw [isFirstPartyScript, isFirstPartyScript, h]

/-- Apart from known hosts, to be of one party is symmetric. -/
theorem isFirstPartyScript_comm (hpage : urlHost U pageUrl = some pageHost)
    (hscript : urlHost U scriptUrl = some scriptHost)
    (hknown : isKnownThirdPartyScriptHost pageHost = false)
    (hother : isKnownThirdPartyScriptHost scriptHost = false) :
    isFirstPartyScript U psl pageUrl scriptUrl = isFirstPartyScript U psl scriptUrl pageUrl := by
  rw [isFirstPartyScript_eq hpage hscript, isFirstPartyScript_eq hscript hpage, hknown, hother,
    sameRoot_comm, BEq.comm]

/-- The hosts are listed in their order, each once. -/
theorem map_host_collectScriptHosts :
    (collectScriptHosts U psl pageUrl scriptSources).map ScriptHostInfo.host =
      ((scriptHosts U pageUrl scriptSources).map Prod.snd).eraseDups := by
  have h := map_unseen Prod.snd [] (scriptHosts U pageUrl scriptSources)
  rw [List.eraseDups_nil, List.nil_append, List.nil_append] at h
  rw [← h, collectScriptHosts, List.map_map]
  rfl

/-- A listed host is that of its URL. -/
theorem urlHost_of_mem_scriptHosts {abs : String}
    (h : (abs, host) ∈ scriptHosts U pageUrl scriptSources) : urlHost U abs = some host := by
  obtain ⟨src, -, hsrc⟩ := List.mem_filterMap.mp h
  obtain ⟨other, -, hother⟩ := Option.bind_eq_some_iff.mp hsrc
  obtain ⟨name, hname, heq⟩ := Option.map_eq_some_iff.mp hother
  obtain ⟨rfl, rfl⟩ := Prod.mk.inj heq
  exact hname

/-- What is listed of a host. -/
theorem exists_mem_collectScriptHosts {abs : String}
    (h : (abs, host) ∈ scriptHosts U pageUrl scriptSources) :
    ∃ info ∈ collectScriptHosts U psl pageUrl scriptSources, info.host = host ∧
      info.registrableDomain = rootDomain psl host ∧
      info.isFirstParty = isFirstPartyScript U psl pageUrl abs := by
  have hmem : host ∈ (collectScriptHosts U psl pageUrl scriptSources).map ScriptHostInfo.host := by
    rw [map_host_collectScriptHosts, List.mem_eraseDups]
    exact List.mem_map_of_mem h
  obtain ⟨info, hinfo, hhost⟩ := List.mem_map.mp hmem
  obtain ⟨⟨other, name⟩, hother, rfl⟩ := List.mem_map.mp hinfo
  obtain rfl : name = host := hhost
  have hfirst := urlHost_of_mem_scriptHosts (mem_of_mem_unseen _ hother)
  exact ⟨_, hinfo, rfl, rfl,
    isFirstPartyScript_congr (hfirst.trans (urlHost_of_mem_scriptHosts h).symm)⟩

/-! ## Addresses -/

/-- An address ends with its last two octets. -/
theorem endsWith_ipv4Text (ip : Ipv4Addr) : EndsWithLabels (ipv4Text ip) (lastOctets ip) :=
  Or.inr ⟨(Nat.repr ip.a.toNat).toList ++ '.' :: (Nat.repr ip.b.toNat).toList, by simp [ipv4Text]⟩

/-- The default rule on a host that ends with the last two numbers of an address. -/
theorem domainStr_address (hpsl : DefaultRule psl)
    (h : EndsWithLabels host.toList (lastOctets ip)) :
    psl.domainStr host = some (String.ofList (lastOctets ip)) := by
  refine hpsl.domain_number (Text.repr_ne_nil _) (fun hdot => ?_) (Text.repr_ne_nil _)
    (fun c hc => Text.isDigit_of_mem_repr hc) h
  exact absurd (Text.isDigit_of_mem_repr hdot) (by decide)

/-- The number at the end of an address is no known host of scripts. -/
theorem not_known_of_lastOctets (h : EndsWithLabels host.toList (lastOctets ip)) :
    isKnownThirdPartyScriptHost host = false := by
  obtain ⟨lead, c, hdigit, hhost⟩ : ∃ lead c, c.isDigit = true ∧ host.toList = lead ++ [c] := by
    have hne := Text.repr_ne_nil ip.d.toNat
    obtain ⟨first, hfirst⟩ : ∃ first, host.toList = first ++ (Nat.repr ip.d.toNat).toList := by
      rcases h with h | ⟨front, h⟩
      · exact ⟨(Nat.repr ip.c.toNat).toList ++ ['.'], by simp [h, lastOctets]⟩
      · exact ⟨front ++ '.' :: ((Nat.repr ip.c.toNat).toList ++ ['.']), by simp [h, lastOctets]⟩
    refine ⟨first ++ (Nat.repr ip.d.toNat).toList.dropLast,
      (Nat.repr ip.d.toNat).toList.getLast hne,
      Text.isDigit_of_mem_repr (List.getLast_mem hne), ?_⟩
    rw [hfirst, List.append_assoc, List.dropLast_append_getLast]
  have hlower : c.toLower = c := by
    unfold Char.toLower
    rw [dif_neg]
    intro hupper
    have hle := (Text.toNat_of_isDigit hdigit).2
    have hge : 65 ≤ c.toNat := hupper.1
    omega
  have hname : (Text.toAsciiLowercase (String.ofList (Text.trimEndMatches (fun c => c == '.')
      host.toList))).toList.getLast? = some c := by
    have hdot : (c == '.') = false := by
      rw [beq_eq_false_iff_ne]
      rintro rfl
      exact absurd hdigit (by decide)
    rw [hhost, Text.trimEndMatches, List.reverse_append, List.reverse_singleton,
      List.singleton_append, List.dropWhile_cons_of_neg (by simp [hdot]), List.reverse_cons,
      List.reverse_reverse, Text.toAsciiLowercase, String.toList_ofList, String.toList_ofList,
      List.map_append, List.map_singleton, hlower, List.getLast?_concat]
  rw [isKnownThirdPartyScriptHost]
  generalize Text.toAsciiLowercase _ = name at hname
  rw [List.any_eq_false]
  intro suffix hmem hknown
  have htail : suffix.toList <:+ name.toList := by
    rcases Bool.or_eq_true_iff.mp hknown with heq | hstrip
    · rw [beq_iff_eq.mp heq]
    · rw [Text.stripSuffix] at hstrip
      split_ifs at hstrip with hsuffix
      · exact List.isSuffixOf_iff_suffix.mp hsuffix
      · cases hstrip
  obtain ⟨last, hlast, hletter⟩ : ∃ last, suffix.toList.getLast? = some last ∧
      last.isDigit = false := by
    have hall : ∀ suffix ∈ knownThirdPartyScriptHostSuffixes,
        suffix.toList.getLast? = some 'm' ∨ suffix.toList.getLast? = some 't' := by decide
    rcases hall suffix hmem with h | h
    · exact ⟨_, h, rfl⟩
    · exact ⟨_, h, rfl⟩
  obtain ⟨front, hfront⟩ := htail
  rw [← hfront, List.getLast?_append, hlast, Option.some_or] at hname
  rw [Option.some.inj hname, hdigit] at hletter
  cases hletter

/-! ## Registrable domains -/

/-- A name in lower case. -/
def IsLower (name : List Char) : Prop :=
  name.map Char.toLower = name

/-- A host is in lower case. -/
theorem isLower_urlHost (h : urlHost U scriptUrl = some host) : IsLower host.toList := by
  obtain ⟨name, -, rfl⟩ := Option.map_eq_some_iff.mp h
  rw [IsLower, toLowercase, String.toList_map, List.map_map]
  refine List.map_congr_left fun c _ => ?_
  exact Text.toLower_toLower c

/-- The last labels of a text in lower case are so too. -/
theorem EndsWithLabels.isLower {name labels : List Char} (h : EndsWithLabels name labels)
    (hlower : IsLower name) : IsLower labels := by
  rcases h with rfl | ⟨front, rfl⟩
  · exact hlower
  · rw [IsLower, List.map_append, List.map_cons] at hlower
    exact (List.cons.inj (List.append_inj_right hlower (List.length_map _))).2

/-- A root is from the list, or it is the host itself. -/
theorem rootDomain_eq_some {root : String} (h : rootDomain psl host = some root) :
    psl.domainStr host = some root ∨ (psl.domainStr host = none ∧ root = host) := by
  rw [rootDomain] at h
  cases hdomain : psl.domainStr host with
  | some domain =>
      rw [hdomain, Option.some_or] at h
      exact Or.inl h
  | none =>
      rw [hdomain, Option.none_or] at h
      split_ifs at h
      exact Or.inr ⟨rfl, (Option.some.inj h).symm⟩

/-- A root of a host in lower case is in lower case. -/
theorem isLower_rootDomain (hpsl : DefaultRule psl) {root : String}
    (h : rootDomain psl host = some root) (hlower : IsLower host.toList) : IsLower root.toList := by
  rcases rootDomain_eq_some h with hdomain | ⟨-, rfl⟩
  · exact (hpsl.domain_tail hdomain).isLower hlower
  · exact hlower

/-- Different hosts of one root have one registrable domain. -/
theorem sameRoot_iff (hpsl : DefaultRule psl) (hpage : IsLower pageHost.toList)
    (hscript : IsLower scriptHost.toList) (hne : pageHost ≠ scriptHost) :
    sameRoot psl pageHost scriptHost = true ↔
      ∃ domain, psl.domainStr pageHost = some domain ∧ psl.domainStr scriptHost = some domain := by
  constructor
  · intro h
    rw [sameRoot] at h
    split at h
    case h_2 => cases h
    case h_1 pageRoot scriptRoot hpageRoot hscriptRoot =>
      have hroot : pageRoot = scriptRoot := by
        have hp := isLower_rootDomain hpsl hpageRoot hpage
        have hs := isLower_rootDomain hpsl hscriptRoot hscript
        rw [Text.eqIgnoreAsciiCase, beq_iff_eq, hp, hs] at h
        exact String.toList_inj.mp h
      subst hroot
      rcases rootDomain_eq_some hpageRoot with hdomain | ⟨hdomain, rfl⟩
      · rcases rootDomain_eq_some hscriptRoot with hother | ⟨hother, rfl⟩
        · exact ⟨_, hdomain, hother⟩
        · rw [hpsl.domain_domain hdomain] at hother
          cases hother
      · rcases rootDomain_eq_some hscriptRoot with hother | ⟨-, heq⟩
        · rw [hpsl.domain_domain hother] at hdomain
          cases hdomain
        · exact absurd heq hne
  · rintro ⟨domain, hdomain, hother⟩
    rw [sameRoot, rootDomain, rootDomain, hdomain, hother]
    exact beq_self_eq_true _

/-- An IPv6 address has no registrable domain. -/
theorem domainStr_ipv6 (hpsl : DefaultRule psl) (hurl : BracketsAddresses U)
    (hhost : urlHost U scriptUrl = some host) (h : IsIpv6Text host) :
    psl.domainStr host = none := by
  refine hpsl.domain_label fun hdot => ?_
  obtain ⟨name, hname, rfl⟩ := Option.map_eq_some_iff.mp hhost
  obtain ⟨url, -, hstr⟩ := Option.bind_eq_some_iff.mp hname
  rw [IsIpv6Text, toLowercase, String.toList_map, List.head?_map] at h
  obtain ⟨c, hc, hlower⟩ := Option.map_eq_some_iff.mp h
  have hbracket : '[' ∈ name.toList :=
    Text.eq_of_toLower_eq (by decide) hlower ▸ List.mem_of_head? hc
  rw [toLowercase, String.toList_map] at hdot
  obtain ⟨d, hd, hlower⟩ := List.mem_map.mp hdot
  exact (hurl hstr hbracket).2 (Text.eq_of_toLower_eq (by decide) hlower ▸ hd)

/-- An address with a registrable domain is an IPv4 address, and that domain is its last two
numbers. -/
theorem sharesOctets_of_domainStr {address domain : String} (hpsl : DefaultRule psl)
    (hurl : BracketsAddresses U) (hhost : urlHost U scriptUrl = some address)
    (haddress : IsAddress address) (hdomain : psl.domainStr address = some domain)
    (hother : psl.domainStr host = some domain) : SharesOctets address host := by
  rcases haddress with ⟨ip, hip⟩ | hip
  · refine ⟨ip, hip, ?_⟩
    have hlast := domainStr_address hpsl (hip ▸ endsWith_ipv4Text ip)
    rw [hlast] at hdomain
    obtain rfl := Option.some.inj hdomain
    have htail := hpsl.domain_tail hother
    rwa [String.toList_ofList] at htail
  · rw [domainStr_ipv6 hpsl hurl hhost hip] at hdomain
    cases hdomain

/-- The classification of scripts is exact for two hosts, unless one is an IPv4 address and the
other a different host that ends with its last two numbers. -/
theorem is_first_party_script_iff (U : UrlCrate) (psl : Psl) (pageUrl scriptUrl : String)
    (scriptSources : List String) (pageHost scriptHost : String) (hpsl : DefaultRule psl)
    (hurl : BracketsAddresses U) (hpage : urlHost U pageUrl = some pageHost)
    (hscript : urlHost U scriptUrl = some scriptHost) :
    FirstPartyExact U psl pageUrl scriptUrl scriptSources pageHost scriptHost ↔
      ¬(pageHost ≠ scriptHost ∧
        (SharesOctets pageHost scriptHost ∨ SharesOctets scriptHost pageHost)) := by
  have hiff := sameRoot_iff hpsl (isLower_urlHost hpage) (isLower_urlHost hscript)
  constructor
  · rintro h ⟨hne, hshares⟩
    obtain ⟨ip, hpageEnd, hscriptEnd⟩ : ∃ ip, EndsWithLabels pageHost.toList (lastOctets ip) ∧
        EndsWithLabels scriptHost.toList (lastOctets ip) := by
      rcases hshares with ⟨ip, hip, hother⟩ | ⟨ip, hip, hother⟩
      · exact ⟨ip, hip ▸ endsWith_ipv4Text ip, hother⟩
      · exact ⟨ip, hother, hip ▸ endsWith_ipv4Text ip⟩
    have hfirst : isFirstPartyScript U psl pageUrl scriptUrl = true := by
      have hroot := (hiff hne).mpr
        ⟨_, domainStr_address hpsl hpageEnd, domainStr_address hpsl hscriptEnd⟩
      rw [isFirstPartyScript_eq hpage hscript, not_known_of_lastOctets hscriptEnd, hroot]
      simp
    rcases h.names hfirst with heq | ⟨hnopage, hnoscript, -⟩
    · exact hne heq
    · rcases hshares with ⟨ip, hip, -⟩ | ⟨ip, hip, -⟩
      · exact hnopage (Or.inl ⟨ip, hip⟩)
      · exact hnoscript (Or.inl ⟨ip, hip⟩)
  · intro h
    have hnames : isFirstPartyScript U psl pageUrl scriptUrl = true →
        pageHost = scriptHost ∨ (¬IsAddress pageHost ∧ ¬IsAddress scriptHost ∧
          ∃ domain, psl.domainStr pageHost = some domain ∧
            psl.domainStr scriptHost = some domain) := by
      intro hfirst
      rw [isFirstPartyScript_eq hpage hscript, Bool.and_eq_true, Bool.or_eq_true,
        beq_iff_eq] at hfirst
      by_cases heq : pageHost = scriptHost
      · exact Or.inl heq
      · obtain ⟨domain, hdomain, hother⟩ := (hiff heq).mp (hfirst.2.resolve_left heq)
        refine Or.inr ⟨fun haddress => ?_, fun haddress => ?_, domain, hdomain, hother⟩
        · exact h ⟨heq, Or.inl (sharesOctets_of_domainStr hpsl hurl hpage haddress hdomain hother)⟩
        · exact h ⟨heq, Or.inr (sharesOctets_of_domainStr hpsl hurl hscript haddress hother
            hdomain)⟩
    refine ⟨hnames, fun haddress _ hne => ?_, isFirstPartyScript_comm hpage hscript,
      map_host_collectScriptHosts, fun _ _ hmem => exists_mem_collectScriptHosts hmem⟩
    rw [← Bool.not_eq_true]
    intro hfirst
    exact (hnames hfirst).elim hne fun hnot => hnot.1 haddress

/-! ## Two addresses -/

/-- The default rule alone. -/
def defaultRulePsl : Psl where
  domainStr name :=
    match (name.toList.splitOn '.').reverse with
    | last :: label :: _ => some (String.ofList (label ++ '.' :: last))
    | _ => none
  suffixStr name := (name.toList.splitOn '.').getLast?.map String.ofList

/-- The last two labels stand at the end. -/
theorem intercalate_append_pair {front : List (List Char)} (hne : front ≠ [])
    (label last : List Char) : ['.'].intercalate (front ++ [label, last]) =
      ['.'].intercalate front ++ '.' :: (label ++ '.' :: last) := by
  induction front with
  | nil => exact absurd rfl hne
  | cons first rest ih =>
      cases rest with
      | nil => simp
      | cons second rest =>
          rw [List.cons_append, List.cons_append, List.intercalate_cons_cons,
            List.intercalate_cons_cons, ← List.cons_append, ih (List.cons_ne_nil _ _)]
          simp

/-- By the default rule the domain is the last two labels. -/
theorem domainStr_defaultRulePsl {name : String} {label last : List Char} (hlabel : '.' ∉ label)
    (hlast : '.' ∉ last) (h : EndsWithLabels name.toList (label ++ '.' :: last)) :
    defaultRulePsl.domainStr name = some (String.ofList (label ++ '.' :: last)) := by
  have hpair : (label ++ '.' :: last).splitOn '.' = [label, last] := by
    rw [List.splitOn_append_cons_self_of_not_mem hlabel, List.splitOn_eq_singleton hlast]
  obtain ⟨front, hfront⟩ : ∃ front, name.toList.splitOn '.' = front ++ [label, last] := by
    rcases h with h | ⟨lead, h⟩
    · exact ⟨[], by rw [h, hpair, List.nil_append]⟩
    · exact ⟨lead.splitOn '.', by rw [h, List.splitOn_append_cons_self, hpair]⟩
  simp only [defaultRulePsl, hfront, List.reverse_append, List.reverse_cons, List.reverse_nil,
    List.nil_append, List.cons_append]

/-- A domain by the default rule has two labels. -/
theorem exists_of_domainStr {name domain : String}
    (h : defaultRulePsl.domainStr name = some domain) :
    ∃ label last, '.' ∉ label ∧ '.' ∉ last ∧ domain = String.ofList (label ++ '.' :: last) ∧
      EndsWithLabels name.toList (label ++ '.' :: last) := by
  simp only [defaultRulePsl] at h
  split at h
  case h_2 => cases h
  case h_1 last label rest hlabels =>
    have hparts : name.toList.splitOn '.' = rest.reverse ++ [label, last] := by
      rw [← List.reverse_reverse (name.toList.splitOn '.'), hlabels]
      simp
    have hname : ['.'].intercalate (name.toList.splitOn '.') = name.toList :=
      List.intercalate_splitOn '.'
    rw [hparts] at hname
    have hclean : ∀ part ∈ rest.reverse ++ [label, last], '.' ∉ part := fun part hpart =>
      Text.not_mem_of_mem_splitOn (hparts ▸ hpart)
    refine ⟨label, last, hclean label (by simp), hclean last (by simp), (Option.some.inj h).symm,
      ?_⟩
    by_cases hrest : rest.reverse = []
    · rw [hrest, List.nil_append] at hname
      exact Or.inl (by rw [← hname]; simp)
    · rw [intercalate_append_pair hrest] at hname
      exact Or.inr ⟨_, hname.symm⟩

/-- The example list has the default rule only. -/
theorem defaultRule_defaultRulePsl : DefaultRule defaultRulePsl where
  domain_tail h := by
    obtain ⟨label, last, -, -, rfl, htail⟩ := exists_of_domainStr h
    rwa [String.toList_ofList]
  domain_domain h := by
    obtain ⟨label, last, hlabel, hlast, rfl, -⟩ := exists_of_domainStr h
    exact domainStr_defaultRulePsl hlabel hlast (Or.inl (String.toList_ofList))
  domain_label h := by
    simp only [defaultRulePsl, List.splitOn_eq_singleton h, List.reverse_singleton]
  domain_number _ hlabel _ hdigits h :=
    domainStr_defaultRulePsl hlabel (fun hdot => absurd (hdigits '.' hdot) (by decide)) h

/-- Two hosts that agree in their last two numbers. -/
def addressName : Bool → String
  | true => "203.0.113.7"
  | false => "198.51.113.7"

/-- The text of a URL of the host up to the slash that starts its path. -/
def addressRoot (first : Bool) : List Char :=
  ("http" ++ "://" ++ addressName first ++ "/").toList

/-- What is in front of an address of the third-party site, and the rest of it. -/
def parseAddress (text : List Char) : Option (Bool × List Char) :=
  [true, false].findSome? fun first =>
    (text.dropPrefix? (addressRoot first)).map fun rest => (first, rest)

/-- An address at a root is read back. -/
theorem parseAddress_root (first : Bool) (rest : List Char) :
    parseAddress (addressRoot first ++ rest) = some (first, rest) := by
  cases first <;> simp [parseAddress, addressRoot, addressName, List.dropPrefix?]

/-- The crate `url` on the URLs of two hosts. -/
def addressUrlCrate : UrlCrate where
  Url := Bool × List Char
  parse text := parseAddress text.toList
  join _ _ := none
  toString url := String.ofList (addressRoot url.1 ++ url.2)
  scheme _ := "http"
  host url := some (.ipv4
    (if url.1 then { a := 203, b := 0, c := 113, d := 7 }
    else { a := 198, b := 51, c := 113, d := 7 }))
  hostStr url := some (addressName url.1)
  port _ := none
  parse_toString url := by simp [parseAddress_root]
  hostStr_isSome _ := rfl
  parse_origin url name rest _ hname := by
    obtain ⟨first, path⟩ := url
    cases hname
    refine ⟨(first, rest.toList), ?_, rfl, rfl, rfl⟩
    rw [← parseAddress_root]
    simp [addressRoot]

/-- The example crate writes addresses in brackets. -/
theorem bracketsAddresses_addressUrlCrate : BracketsAddresses addressUrlCrate := by
  rintro ⟨first, path⟩ name hname hbracket
  obtain rfl := Option.some.inj hname
  have hall : ∀ first, '[' ∉ (addressName first).toList := by decide
  exact absurd hbracket (hall first)

/-- A script of the page's own address. -/
theorem is_first_party_script_same_address :
    FirstPartyExact addressUrlCrate defaultRulePsl "http://203.0.113.7/"
      "http://203.0.113.7/app.js" ["http://203.0.113.7/app.js"] "203.0.113.7" "203.0.113.7" :=
  (is_first_party_script_iff _ _ _ _ _ _ _ defaultRule_defaultRulePsl
    bracketsAddresses_addressUrlCrate (by decide +kernel) (by decide +kernel)).mpr
    fun h => h.1 rfl

/-- A script of another address counts as the page's own when the last two numbers agree. -/
theorem is_first_party_script_other_address :
    urlHost addressUrlCrate "http://203.0.113.7/" = some "203.0.113.7" ∧
      urlHost addressUrlCrate "http://198.51.113.7/app.js" = some "198.51.113.7" ∧
      ¬FirstPartyExact addressUrlCrate defaultRulePsl "http://203.0.113.7/"
        "http://198.51.113.7/app.js" [] "203.0.113.7" "198.51.113.7" := by
  refine ⟨by decide +kernel, by decide +kernel, fun h => ?_⟩
  have hfirst : isFirstPartyScript addressUrlCrate defaultRulePsl "http://203.0.113.7/"
      "http://198.51.113.7/app.js" = true := by decide +kernel
  rcases h.names hfirst with heq | ⟨hno, -, -⟩
  · exact absurd heq (by decide)
  · exact hno (Or.inl ⟨{ a := 203, b := 0, c := 113, d := 7 }, by decide +kernel⟩)

end DomainStatus.Fetch
