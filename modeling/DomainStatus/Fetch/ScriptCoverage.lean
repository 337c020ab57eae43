import DomainStatus.Fetch.PageRequests
import DomainStatus.Lib.Distinct

/-!
# Coverage of external scripts

Which scripts `scan_external_scripts` of `src/fetch/external_scripts.rs` requests for a list of
sources, and what it counts. Two sources may name one script, and nothing collapses them.
-/

namespace DomainStatus.Fetch

open Distinct Security

section Eligible

variable (U : UrlCrate) (psl : Psl) (pageUrl : String) (allowLocalhost : Bool)

/-- The URL that a source makes eligible. -/
def eligibleUrl (src : String) : Option String :=
  (resolveScriptUrl U pageUrl src).filter fun url =>
    (Text.startsWith url "http://" || Text.startsWith url "https://") &&
      ((allowLocalhost || (validateUrlSafe U url).toBool) && isFirstPartyScript U psl pageUrl url)

/-- Two sources of one eligible script. -/
def SameScript (src other : String) : Prop :=
  ∃ url, eligibleUrl U psl pageUrl allowLocalhost src = some url ∧
    eligibleUrl U psl pageUrl allowLocalhost other = some url

/-- The distinct eligible URLs of a page's sources, in the order of their first occurrence. -/
def distinctScripts (scriptSources : List String) : List String :=
  (scriptSources.filterMap (eligibleUrl U psl pageUrl allowLocalhost)).eraseDups

/-- No script is requested twice, and the first of them all are. -/
structure CoversScripts (net : Network) (scriptSources : List String) : Prop where
  requests_nodup :
    (scanExternalScripts U psl net pageUrl scriptSources allowLocalhost).requests.Nodup
  eligible_eq :
    (scanExternalScripts U psl net pageUrl scriptSources allowLocalhost).result.eligible =
      (distinctScripts U psl pageUrl allowLocalhost scriptSources).length
  all_requested :
    (distinctScripts U psl pageUrl allowLocalhost scriptSources).length ≤ maxScriptFetchPerPage →
      ∀ url ∈ distinctScripts U psl pageUrl allowLocalhost scriptSources,
        url ∈ (scanExternalScripts U psl net pageUrl scriptSources allowLocalhost).requests
  first_requested :
    maxScriptFetchPerPage < (distinctScripts U psl pageUrl allowLocalhost scriptSources).length →
      (scanExternalScripts U psl net pageUrl scriptSources allowLocalhost).requests =
        (distinctScripts U psl pageUrl allowLocalhost scriptSources).take maxScriptFetchPerPage
  scanned_le :
    (scanExternalScripts U psl net pageUrl scriptSources allowLocalhost).result.scanned ≤
      min (scanExternalScripts U psl net pageUrl scriptSources allowLocalhost).result.eligible
        maxScriptFetchPerPage

end Eligible

/-- The scheme of a URL is its text in front of the first colon. -/
def ShowsScheme (U : UrlCrate) : Prop :=
  ∀ url, ∃ rest, Text.splitOnce ':' (U.toString url).toList = some ((U.scheme url).toList, rest)

variable {U : UrlCrate} {psl : Psl} {net : Network} {pageUrl : String} {scriptSources : List String}
  {allowLocalhost : Bool} {url : String}

/-- The scripts are picked one by one. -/
theorem eligibleScripts_eq :
    eligibleScripts U psl pageUrl scriptSources allowLocalhost =
      scriptSources.filterMap (eligibleUrl U psl pageUrl allowLocalhost) := by
  rw [eligibleScripts, List.filter_filter, List.filter_filter, List.filter_filterMap]
  refine List.filterMap_congr fun src _ => ?_
  rw [eligibleUrl]
  congr 1
  funext url
  rw [Bool.and_comm, Bool.and_comm (isFirstPartyScript U psl pageUrl url)]

/-! ## Requests -/

/-- The text of a URL starts with its scheme. -/
theorem scheme_of_startsWith (hscheme : ShowsScheme U) {parsed : U.Url} {scheme : List Char}
    {rest : List Char} (hcolon : ':' ∉ scheme)
    (htext : (U.toString parsed).toList = scheme ++ ':' :: rest) :
    U.scheme parsed = String.ofList scheme := by
  obtain ⟨other, hother⟩ := hscheme parsed
  rw [htext, Text.splitOnce_append hcolon] at hother
  obtain ⟨hlead, -⟩ := Prod.mk.inj (Option.some.inj hother)
  rw [hlead, String.ofList_toList]

/-- A URL with a lead of `http` or `https` has that scheme. -/
theorem scheme_of_http (hscheme : ShowsScheme U) {parsed : U.Url}
    (h : (Text.startsWith (U.toString parsed) "http://" ||
      Text.startsWith (U.toString parsed) "https://") = true) :
    U.scheme parsed = "http" ∨ U.scheme parsed = "https" := by
  rw [Bool.or_eq_true, Text.startsWith, Text.startsWith, List.isPrefixOf_iff_prefix,
    List.isPrefixOf_iff_prefix] at h
  rcases h with ⟨rest, htext⟩ | ⟨rest, htext⟩
  · exact Or.inl (scheme_of_startsWith hscheme (by decide) htext.symm)
  · exact Or.inr (scheme_of_startsWith hscheme (by decide) htext.symm)

/-- A resolved script is the text of a URL. -/
theorem exists_toString_of_resolve {src : String}
    (h : resolveScriptUrl U pageUrl src = some url) : ∃ parsed, url = U.toString parsed := by
  simp only [resolveScriptUrl] at h
  split_ifs at h
  split at h
  · exact ⟨_, (Option.some.inj h).symm⟩
  · obtain ⟨parsed, -, hurl⟩ := Option.map_eq_some_iff.mp h
    exact ⟨parsed, hurl.symm⟩

/-- A script of the page's party has a host. -/
theorem urlHost_isSome_of_firstParty (h : isFirstPartyScript U psl pageUrl url = true) :
    (urlHost U url).isSome := by
  rw [isFirstPartyScript] at h
  split at h
  next hscript =>
    rw [hscript]
    rfl
  · cases h

/-- The client sends a request for every eligible script. -/
theorem reqwestAccepts_of_eligible (hscheme : ShowsScheme U) {src : String}
    (h : eligibleUrl U psl pageUrl allowLocalhost src = some url) :
    reqwestAccepts U url = true := by
  rw [eligibleUrl, Option.filter_eq_some_iff, Bool.and_eq_true, Bool.and_eq_true] at h
  obtain ⟨hresolve, hlead, -, hfirst⟩ := h
  obtain ⟨parsed, rfl⟩ := exists_toString_of_resolve hresolve
  have hhost := urlHost_isSome_of_firstParty hfirst
  rw [urlHost, U.parse_toString, Option.bind_some, Option.isSome_map, U.hostStr_isSome] at hhost
  rw [reqwestAccepts, U.parse_toString]
  rcases scheme_of_http hscheme hlead with h | h <;> simp [hhost, h]

/-- When the client accepts all of them, every URL meets one request. -/
theorem flatMap_requests {urls : List String} (h : ∀ url ∈ urls, reqwestAccepts U url = true)
    (start : ℕ) :
    (((urls.zipIdx start).map fun (url, number) => (url, fetchScriptBody U net number url)).flatMap
      fun (_, script) => script.requests) = urls := by
  induction urls generalizing start with
  | nil => rfl
  | cons url rest ih =>
      rw [List.forall_mem_cons] at h
      have hsent : (fetchScriptBody U net start url).requests = [url] := by
        simp [fetchScriptBody, send, h.1]
      rw [List.zipIdx_cons, List.map_cons, List.flatMap_cons, ih h.2]
      simp only [hsent, List.singleton_append]

/-- The requests are those for the first eligible URLs. -/
theorem requests_eq (hscheme : ShowsScheme U) :
    (scanExternalScripts U psl net pageUrl scriptSources allowLocalhost).requests =
      (scriptSources.filterMap (eligibleUrl U psl pageUrl allowLocalhost)).take
        maxScriptFetchPerPage := by
  rw [scanExternalScripts, eligibleScripts_eq]
  refine flatMap_requests (fun url hurl => ?_) 0
  obtain ⟨src, -, hsrc⟩ := List.mem_filterMap.mp (List.mem_of_mem_take hurl)
  exact reqwestAccepts_of_eligible hscheme hsrc

/-- The number of scripts, as far as a `u32` goes. -/
theorem eligible_eq_min :
    (scanExternalScripts U psl net pageUrl scriptSources allowLocalhost).result.eligible =
      min (scriptSources.filterMap (eligibleUrl U psl pageUrl allowLocalhost)).length
        (2 ^ 32 - 1) := by
  rw [scanExternalScripts, eligibleScripts_eq]

/-- No more scripts are scanned than there are and than the limit allows. -/
theorem scanned_le_min :
    (scanExternalScripts U psl net pageUrl scriptSources allowLocalhost).result.scanned ≤
      min (scanExternalScripts U psl net pageUrl scriptSources allowLocalhost).result.eligible
        maxScriptFetchPerPage := by
  rw [eligible_eq_min, scanExternalScripts, eligibleScripts_eq]
  generalize scriptSources.filterMap _ = urls
  have hle := List.length_filterMap_le
    (fun (url, script) => script.result.map fun body => (url, body))
    (((urls.take maxScriptFetchPerPage).zipIdx).map fun (url, number) =>
      (url, fetchScriptBody U net number url))
  rw [List.length_map, List.length_zipIdx, List.length_take, maxScriptFetchPerPage] at hle
  simp only [maxScriptFetchPerPage] at *
  omega

/-! ## Repeated sources -/

/-- No script repeats when no two sources name the same one. -/
theorem nodup_filterMap_iff :
    (scriptSources.filterMap (eligibleUrl U psl pageUrl allowLocalhost)).Nodup ↔
      scriptSources.Pairwise fun src other =>
        ¬SameScript U psl pageUrl allowLocalhost src other := by
  rw [List.Nodup, List.pairwise_filterMap]
  refine List.Pairwise.iff fun src other => ?_
  constructor
  · rintro h ⟨url, hsrc, hother⟩
    exact h url hsrc url hother rfl
  · rintro h url hsrc _ hother rfl
    exact h ⟨url, hsrc, hother⟩

/-- Every script is requested and counted once when no two sources name the same one. The count is
kept in 32 bits, so beyond them it may be right by chance. -/
theorem scan_external_scripts_covers_iff (U : UrlCrate) (psl : Psl) (net : Network)
    (pageUrl : String) (scriptSources : List String) (allowLocalhost : Bool)
    (hscheme : ShowsScheme U) :
    CoversScripts U psl pageUrl allowLocalhost net scriptSources ↔
      (scriptSources.Pairwise (fun src other =>
          ¬SameScript U psl pageUrl allowLocalhost src other) ∧
        (scriptSources.filterMap (eligibleUrl U psl pageUrl allowLocalhost)).length < 2 ^ 32) ∨
      (2 ^ 32 ≤ (scriptSources.filterMap (eligibleUrl U psl pageUrl allowLocalhost)).length ∧
        (distinctScripts U psl pageUrl allowLocalhost scriptSources).length = 2 ^ 32 - 1 ∧
        ((scriptSources.filterMap (eligibleUrl U psl pageUrl allowLocalhost)).take
          maxScriptFetchPerPage).Nodup) := by
  have hrequests : (scanExternalScripts U psl net pageUrl scriptSources allowLocalhost).requests =
      (scriptSources.filterMap (eligibleUrl U psl pageUrl allowLocalhost)).take
        maxScriptFetchPerPage := requests_eq hscheme
  have heligible : (scanExternalScripts U psl net pageUrl scriptSources
      allowLocalhost).result.eligible = _ := eligible_eq_min
  rw [← nodup_filterMap_iff]
  constructor
  · rintro ⟨hnodup, hcount, -, -, -⟩
    rw [hrequests] at hnodup
    rw [heligible, distinctScripts] at hcount
    rw [distinctScripts]
    by_cases hsmall : (scriptSources.filterMap
        (eligibleUrl U psl pageUrl allowLocalhost)).length < 2 ^ 32
    · exact Or.inl ⟨length_eraseDups_eq_iff.mp (by omega), hsmall⟩
    · exact Or.inr ⟨by omega, by omega, hnodup⟩
  · rintro (⟨hnodup, hsmall⟩ | ⟨hlarge, hdistinct, hnodup⟩)
    · have hself : distinctScripts U psl pageUrl allowLocalhost scriptSources =
          scriptSources.filterMap (eligibleUrl U psl pageUrl allowLocalhost) :=
        eraseDups_eq_self hnodup
      refine ⟨?_, ?_, fun hfew url hurl => ?_, fun _ => ?_, scanned_le_min⟩
      · rw [hrequests]
        exact hnodup.sublist (List.take_sublist _ _)
      · rw [heligible, hself]
        omega
      · rw [hself] at hfew hurl
        rw [hrequests, List.take_of_length_le hfew]
        exact hurl
      · rw [hrequests, hself]
    · refine ⟨?_, ?_, fun hfew => ?_, fun _ => ?_, scanned_le_min⟩
      · rw [hrequests]
        exact hnodup
      · rw [heligible, hdistinct]
        omega
      · rw [hdistinct, maxScriptFetchPerPage] at hfew
        omega
      · rw [hrequests, distinctScripts, take_eraseDups hnodup]

/-- The example crate writes schemes in front. -/
theorem showsScheme_exampleUrlCrate : ShowsScheme exampleUrlCrate := by
  rintro ⟨site, path⟩
  have htext : (exampleUrlCrate.toString (site, path)).toList =
      site.scheme.toList ++ ':' :: ("//".toList ++ site.name.toList ++ "/".toList ++ path) := by
    simp [exampleUrlCrate, ExampleSite.root]
  refine ⟨"//".toList ++ site.name.toList ++ "/".toList ++ path, ?_⟩
  rw [htext, Text.splitOnce_append (by cases site <;> decide)]
  rfl

/-- A page with two scripts. -/
theorem scan_external_scripts_covers_app :
    ShowsScheme exampleUrlCrate ∧
      CoversScripts exampleUrlCrate examplePsl "https://example.com/" false (fun _ _ => none)
        ["/app.js", "/main.js"] := by
  refine ⟨showsScheme_exampleUrlCrate, (scan_external_scripts_covers_iff _ _ _ _ _ _
    showsScheme_exampleUrlCrate).mpr (Or.inl ?_)⟩
  rw [← nodup_filterMap_iff]
  decide +kernel

/-- A script that is named twice, once relative to the page, is requested twice. -/
theorem scan_external_scripts_repeats :
    ¬CoversScripts exampleUrlCrate examplePsl "https://example.com/" false (fun _ _ => none)
      ["/app.js", "https://example.com/app.js"] := by
  intro h
  have hrequests : (scanExternalScripts exampleUrlCrate examplePsl (fun _ _ => none)
      "https://example.com/" ["/app.js", "https://example.com/app.js"] false).requests =
      ["https://example.com/app.js", "https://example.com/app.js"] := by decide +kernel
  have hnodup := h.requests_nodup
  rw [hrequests] at hnodup
  exact absurd hnodup (by decide)

end DomainStatus.Fetch
