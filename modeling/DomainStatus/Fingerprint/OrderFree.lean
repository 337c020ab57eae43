import DomainStatus.Fingerprint.Findings
import DomainStatus.Fingerprint.Parity
import DomainStatus.Fingerprint.Versions

/-!
# Detection in any order

Whether `detectTechnologiesBlocking` returns the same when the maps that it iterates come in another
order. Names, flags and sources never depend on the orders, and versions may. Read
`detection_order_free_iff` first: a page has one result in all orders exactly when the versions of
every technology that is reported are settled.
-/

namespace DomainStatus.Fingerprint

/-- A ruleset with its maps in some order, and orders for the maps that a detection makes. -/
structure Orders (ruleset : FingerprintRuleset) where
  rules : FingerprintRuleset
  same : SameRuleset ruleset rules
  maps : MapOrders

/-- The names, versions, flags and sources of a detection. -/
def detectionSet (techs : List DetectedTechnology) :
    Finset (String × Option String × Bool × Option String) :=
  (techs.map fun tech => (tech.name, tech.version, tech.isImplied, tech.detectionSource)).toFinset

section Stages

variable (R : RegexCrate) (aho : AhoCorasick) (U : Security.UrlCrate)
  (toLowercase : String → String) (ruleset : FingerprintRuleset) (signals : PageSignals)

/-- Where the page first shows a technology, if it does. -/
def signalSource (tech : Technology) : Option DetectionSource :=
  let headers := normalizeHeadersToMap toLowercase signals.headers
  let cookies := extractCookiesNameValueMap toLowercase signals.headers
  (if headerHit R headers tech then some DetectionSource.header else none).or
    ((if cookieHit R cookies tech then some DetectionSource.cookie else none).or
      ((bodySource (indexResult R aho ruleset.technologies)
          (metaTagResult R toLowercase signals.metaTags) tech signals.page).or
        (if jsHit signals.scriptTagIds tech then some DetectionSource.js else none)))

/-- Where the page first shows a technology of the ruleset. -/
def namedSource (name : String) : Option DetectionSource :=
  (ruleset.technologies.lookup name).bind (signalSource R aho toLowercase ruleset signals)

/-- The technologies that the page shows. -/
def signalNames : Finset String :=
  ruleset.technologies.keys.toFinset.filter fun name =>
    (namedSource R aho toLowercase ruleset signals name).isSome

/-- The technologies that a detection reports. -/
def reportedNames : Finset String :=
  (keptNames ruleset (expandNames ruleset (signalNames R aho toLowercase ruleset signals))).filter
    fun name => ¬ (isGithubDotComHost U signals.page.url ∧ name = "GitHub Pages")

/-- The versions that the headers can give a technology. -/
def headerOutcomes (tech : Technology) : Set (Option String) :=
  Set.image (fun ends => sanitizeTechnologyVersion ends.join)
    (AnyOrder.outcomes (headerEnds R (normalizeHeadersToMap toLowercase signals.headers) tech)
      tech.headers.keys)

/-- The versions that the cookies can give a technology. -/
def cookieOutcomes (tech : Technology) : Set (Option String) :=
  Set.image (fun ends => sanitizeTechnologyVersion ends.join)
    (AnyOrder.outcomes (fun tried => cookieEnds tried.1 tried.2)
      (tech.cookies.keys.flatMap fun cookieName =>
        (cookieCandidates R (extractCookiesNameValueMap toLowercase signals.headers) tech
          cookieName).map fun candidate => (cookieName, candidate)))

/-- The versions that the body can give a technology. -/
def bodyOutcomes (tech : Technology) : Set (Option String) :=
  Set.image
    (fun found => sanitizeTechnologyVersion
      (bodyVersionWith (indexResult R aho ruleset.technologies) tech signals.page found))
    (AnyOrder.outcomes (metaEnds (metaTagResult R toLowercase signals.metaTags))
      tech.metaTags.entries)

/-- The versions that headers, cookies, body and implications can give a technology, in the order in
which they count. -/
def versionStages (name : String) : List (Set (Option String)) :=
  let tech := (ruleset.technologies.lookup name).getD {}
  [headerOutcomes R toLowercase signals tech, cookieOutcomes R toLowercase signals tech,
    bodyOutcomes R aho toLowercase ruleset signals tech,
    impliedOutcomes ruleset name maxImpliesDepth (signalNames R aho toLowercase ruleset signals)]

end Stages

/-! ## The observations of one technology -/

section Observed

/-- Of the findings of all technologies those of one are what its entry gives. -/
theorem filter_filterMap_entries (technologies : HashMap String Technology)
    (finding : Technology → String → Option MatchResult)
    (hname : ∀ {tech name found}, finding tech name = some found → found.techName = name)
    (name : String) :
    (technologies.entries.filterMap fun entry => finding entry.2 entry.1).filter
        (·.techName = name) =
      ((technologies.lookup name).bind fun tech => finding tech name).toList := by
  suffices h : ∀ entries : List (Sigma fun _ : String => Technology), entries.NodupKeys →
      (entries.filterMap fun entry => finding entry.2 entry.1).filter (·.techName = name) =
        ((entries.dlookup name).bind fun tech => finding tech name).toList from
    h technologies.entries technologies.nodupKeys
  intro entries hnodup
  induction entries with
  | nil => rfl
  | cons entry rest ih =>
      obtain ⟨key, tech⟩ := entry
      obtain ⟨hnew, hrest⟩ := List.nodupKeys_cons.mp hnodup
      have hfirst : (⟨key, tech⟩ :: rest : List (Sigma fun _ : String => Technology)).filterMap
          (fun entry => finding entry.2 entry.1) =
            (finding tech key).toList ++ rest.filterMap fun entry => finding entry.2 entry.1 := by
        cases hfinding : finding tech key <;> simp [hfinding]
      rw [hfirst, List.filter_append, ih hrest]
      by_cases hkey : key = name
      · subst hkey
        have hnone : rest.dlookup key = none := List.dlookup_eq_none.mpr hnew
        cases hfinding : finding tech key with
        | none => simp [hnone, hfinding]
        | some found => simp [hnone, hfinding, hname hfinding]
      · have hlookup : List.dlookup name (⟨key, tech⟩ :: rest) = rest.dlookup name :=
          List.dlookup_cons_ne _ _ (fun h => hkey h.symm)
        have hother : (finding tech key).toList.filter (·.techName = name) = [] := by
          cases hfinding : finding tech key with
          | none => rfl
          | some found => simp [hname hfinding, hkey]
        rw [hlookup, hother, List.nil_append]

/-- The merged entry has the first source and the first version. -/
theorem mergedInfo_eq (results : List MatchResult) :
    mergedInfo results = results.head?.map fun first =>
      { version := results.findSome? fun result => sanitizeTechnologyVersion result.version
        isImplied := false
        source := first.source } := by
  cases results <;> rfl

/-- The findings of a technology, merged one after the other. -/
theorem mergedInfo_findings (first second third fourth : Option MatchResult) :
    mergedInfo (first.toList ++ second.toList ++ third.toList ++ fourth.toList) =
      ((first.map MatchResult.source).or ((second.map MatchResult.source).or
        ((third.map MatchResult.source).or (fourth.map MatchResult.source)))).map fun source =>
          { version := (findingVersion first).or ((findingVersion second).or
              ((findingVersion third).or (findingVersion fourth)))
            isImplied := false
            source := source } := by
  have hversion : ∀ finding : Option MatchResult, (finding.toList.findSome? fun result =>
      sanitizeTechnologyVersion result.version) = findingVersion finding := by
    rintro (_ | result)
    · rfl
    · exact List.findSome?_singleton
  have hhead : ∀ finding : Option MatchResult, finding.toList.head? = finding := by
    rintro (_ | result) <;> rfl
  rw [mergedInfo_eq]
  simp only [List.findSome?_append, List.head?_append, hversion, hhead, Option.or_assoc,
    ← Option.map_or, Option.map_map]
  rfl

end Observed

section Merged

variable {R : RegexCrate} {aho : AhoCorasick} {toLowercase : String → String}
  {rules : FingerprintRuleset} {signals : PageSignals} {maps : MapOrders}

/-- The version that the page shows of a technology, in the order of the technology's maps and with
the cookies in the given order. -/
def observedVersion (R : RegexCrate) (aho : AhoCorasick) (toLowercase : String → String)
    (rules : FingerprintRuleset) (signals : PageSignals) (cookies : HashMap String String)
    (tech : Technology) : Option String :=
  (sanitizeTechnologyVersion
      (headerVersion R (normalizeHeadersToMap toLowercase signals.headers) tech)).or
    ((sanitizeTechnologyVersion (cookieVersion R cookies tech)).or
      (sanitizeTechnologyVersion
        (bodyVersion (indexResult R aho rules.technologies)
          (metaTagResult R toLowercase signals.metaTags) tech signals.page)))

/-- Without cookies there is no cookie finding. -/
theorem cookieFinding_empty {cookies : HashMap String String} (hempty : cookies.entries.isEmpty)
    (tech : Technology) (name : String) : cookieFinding R cookies tech name = none := by
  have hcookies : cookies.entries = [] := List.isEmpty_iff.mp hempty
  have hvalues : ∀ cookieName, cookieValues R cookies cookieName = [] := by
    intro cookieName
    have hlookup : cookies.lookup cookieName = none := by
      rw [AList.lookup_eq_none, AList.mem_keys, AList.keys, hcookies]
      exact List.not_mem_nil
    unfold cookieValues
    rw [hlookup, hcookies]
    split
    · cases wildcardCookieRegex R cookieName <;> rfl
    · rfl
  have hhit : cookieHit R cookies tech = false := by
    rw [cookieHit, List.any_eq_false]
    intro cookieName _
    unfold cookieCandidates
    rw [hvalues]
    cases preparedPattern R tech.cookies cookieName <;> simp
  simp [cookieFinding, signalFinding, hhit]

/-- The observations of the page, by technology. -/
theorem observedSignals_eq :
    observedSignals R aho toLowercase maps rules signals =
      (rules.technologies.entries.filterMap fun entry =>
        headerFinding R (normalizeHeadersToMap toLowercase signals.headers) entry.2 entry.1) ++
      (rules.technologies.entries.filterMap fun entry =>
        cookieFinding R (maps.cookies (extractCookiesNameValueMap toLowercase signals.headers))
          entry.2 entry.1) ++
      (rules.technologies.entries.filterMap fun entry =>
        bodyFinding (indexResult R aho rules.technologies)
          (metaTagResult R toLowercase signals.metaTags) entry.2 signals.page entry.1) ++
      (rules.technologies.entries.filterMap fun entry =>
        jsFinding signals.scriptTagIds entry.2 entry.1) := by
  unfold observedSignals
  dsimp only
  rw [checkHeadersWithRuleset_eq, checkBodyWithRuleset_findings, checkScriptTagIds_eq]
  congr 3
  split
  case isTrue hempty =>
    rw [Eq.comm, List.filterMap_eq_nil_iff]
    exact fun entry _ => cookieFinding_empty hempty entry.2 entry.1
  case isFalse => exact checkCookiesWithRuleset_eq _ rules

/-- What is in the map when all observations are merged. -/
theorem lookup_observedSignals (name : String) :
    ((observedSignals R aho toLowercase maps rules signals).foldl mergeObserved ∅).lookup name =
      (rules.technologies.lookup name).bind fun tech =>
        (signalSource R aho toLowercase rules signals tech).map fun source =>
          { version := observedVersion R aho toLowercase rules signals
              (maps.cookies (extractCookiesNameValueMap toLowercase signals.headers)) tech
            isImplied := false
            source := source } := by
  have hcookie : cookieHit R
      (maps.cookies (extractCookiesNameValueMap toLowercase signals.headers)) =
        cookieHit R (extractCookiesNameValueMap toLowercase signals.headers) :=
    funext fun tech => cookieHit_eq (SameTechnology.refl tech) (maps.cookies_perm _)
  rw [lookup_foldl_mergeObserved, observedSignals_eq, List.filter_append, List.filter_append,
    List.filter_append,
    filter_filterMap_entries _ (headerFinding R _) techName_signalFinding,
    filter_filterMap_entries _ (cookieFinding R _) techName_signalFinding,
    filter_filterMap_entries _ (fun tech => bodyFinding _ _ tech signals.page)
      techName_bodyFinding,
    filter_filterMap_entries _ (jsFinding _) techName_signalFinding]
  cases rules.technologies.lookup name with
  | none => rfl
  | some tech =>
      simp only [Option.bind_some, mergedInfo_findings, findingVersion_headerFinding,
        findingVersion_cookieFinding, findingVersion_bodyFinding, findingVersion_jsFinding,
        Option.or_none, source_bodyFinding]
      simp only [headerFinding, cookieFinding, jsFinding, source_signalFinding, hcookie]
      rfl

end Merged

/-! ## What does not depend on the orders -/

section Invariant

variable {R : RegexCrate} {aho : AhoCorasick} {toLowercase : String → String}
  {ruleset rules : FingerprintRuleset} {signals : PageSignals}

/-- No order matters to the source of a technology's finding. -/
theorem signalSource_eq (haho : aho.ByText)
    (hbuilds : (LiteralIndex.build R aho ruleset.technologies).builds)
    (hsame : SameRuleset ruleset rules) {tech other : Technology}
    (htech : SameTechnology tech other) :
    signalSource R aho toLowercase rules signals other =
      signalSource R aho toLowercase ruleset signals tech := by
  simp only [signalSource, hsame.indexResult_eq haho hbuilds, headerHit_eq htech,
    cookieHit_eq htech (SameMap.refl _), bodySource_eq htech, jsHit_eq htech]

/-- No order matters to the source under a name. -/
theorem namedSource_eq (haho : aho.ByText)
    (hbuilds : (LiteralIndex.build R aho ruleset.technologies).builds)
    (hsame : SameRuleset ruleset rules) (name : String) :
    namedSource R aho toLowercase rules signals name =
      namedSource R aho toLowercase ruleset signals name := by
  unfold namedSource
  obtain ⟨hleft, hright⟩ | ⟨tech, other, hleft, hright, htech⟩ := hsame.lookup_cases name
  · rw [hleft, hright]
    rfl
  · rw [hleft, hright]
    exact signalSource_eq haho hbuilds hsame htech

/-- The names that the signals find. -/
theorem mem_signalNames {name : String} :
    name ∈ signalNames R aho toLowercase ruleset signals ↔
      (namedSource R aho toLowercase ruleset signals name).isSome := by
  rw [signalNames, Finset.mem_filter, List.mem_toFinset, ← AList.mem_keys]
  refine and_iff_right_of_imp fun hsource => ?_
  obtain ⟨source, hsource⟩ := Option.isSome_iff_exists.mp hsource
  obtain ⟨tech, htech, -⟩ := Option.bind_eq_some_iff.mp hsource
  exact AList.lookup_isSome.mp (by simp [htech])

/-- No order matters to the version of an implication. -/
theorem impliedVersion_eq (hsame : SameRuleset ruleset rules) :
    impliedVersion rules = impliedVersion ruleset := by
  funext name implier
  simp only [impliedVersion, hsame.impliedBy_eq, hsame.mem_technologies_iff]

/-- No order matters to the versions that implications can give. -/
theorem impliedOutcomes_eq (hsame : SameRuleset ruleset rules) (name : String) (rounds : ℕ)
    (known : Finset String) :
    impliedOutcomes rules name rounds known = impliedOutcomes ruleset name rounds known := by
  induction rounds generalizing known with
  | zero => rfl
  | succ rounds ih =>
      simp only [impliedOutcomes, ImpliesVersion, impliedVersion_eq hsame, hsame.impliesStep_eq, ih]

end Invariant

/-! ## A detection in given orders -/

section Described

variable (R : RegexCrate) (aho : AhoCorasick) (U : Security.UrlCrate)
  (toLowercase : String → String) {ruleset : FingerprintRuleset} (orders : Orders ruleset)
  (signals : PageSignals)

/-- The observed technologies, merged in the given orders. -/
def mergedMap : HashMap String TechInfo :=
  (observedSignals R aho toLowercase orders.maps orders.rules signals).foldl mergeObserved ∅

/-- The observed technologies with all that they imply. -/
def expandedMap : HashMap String TechInfo :=
  expandImplies orders.rules orders.maps.detected (mergedMap R aho toLowercase orders signals)

/-- The version that a detection in the given orders reports of a technology. -/
def versionUnder (name : String) : Option String :=
  versionOf (expandedMap R aho toLowercase orders signals) name

/-- The detection in the given orders. -/
def detect : Option (List DetectedTechnology) :=
  detectTechnologiesBlocking U R aho toLowercase orders.maps orders.rules signals

variable {R aho toLowercase signals}

/-- What the merged map holds under a name. -/
theorem lookup_mergedMap (name : String) :
    (mergedMap R aho toLowercase orders signals).lookup name =
      (orders.rules.technologies.lookup name).bind fun tech =>
        (signalSource R aho toLowercase orders.rules signals tech).map fun source =>
          { version := observedVersion R aho toLowercase orders.rules signals
              (orders.maps.cookies (extractCookiesNameValueMap toLowercase signals.headers)) tech
            isImplied := false
            source := source } :=
  lookup_observedSignals name

variable (haho : aho.ByText) (hbuilds : (LiteralIndex.build R aho ruleset.technologies).builds)

include haho hbuilds

/-- The names of the merged map, whatever the orders are. -/
theorem names_mergedMap :
    names (mergedMap R aho toLowercase orders signals) =
      signalNames R aho toLowercase ruleset signals := by
  ext name
  rw [mem_names, ← AList.lookup_isSome, lookup_mergedMap, mem_signalNames,
    ← namedSource_eq haho hbuilds orders.same, namedSource]
  cases orders.rules.technologies.lookup name <;> simp

/-- The names after the expansion, whatever the orders are. -/
theorem names_expandedMap :
    names (expandedMap R aho toLowercase orders signals) =
      expandNames ruleset (signalNames R aho toLowercase ruleset signals) := by
  rw [expandedMap, names_expandImplies, names_mergedMap orders haho hbuilds,
    orders.same.expandNames_eq]

/-- Flag and source of an entry do not depend on the orders. -/
theorem origin_expandedMap {name : String} {info : TechInfo}
    (hlookup : (expandedMap R aho toLowercase orders signals).lookup name = some info) :
    info.isImplied = decide (name ∉ signalNames R aho toLowercase ruleset signals) ∧
      info.source = (namedSource R aho toLowercase ruleset signals name).getD .implied := by
  have horigin := (originsKept_expandImplies orders.maps.detected _).origin hlookup
  have hmerged : origin ((mergedMap R aho toLowercase orders signals).lookup name) =
      (namedSource R aho toLowercase ruleset signals name).elim (true, .implied)
        fun source => (false, source) := by
    rw [lookup_mergedMap, ← namedSource_eq haho hbuilds orders.same, namedSource]
    cases orders.rules.technologies.lookup name with
    | none => rfl
    | some tech =>
        rw [Option.bind_some, Option.bind_some]
        cases signalSource R aho toLowercase orders.rules signals tech <;> rfl
  rw [hmerged] at horigin
  simp only [mem_signalNames]
  cases hsource : namedSource R aho toLowercase ruleset signals name with
  | none =>
      rw [hsource, Option.elim_none, Prod.mk.injEq] at horigin
      simpa using horigin
  | some source =>
      rw [hsource, Option.elim_some, Prod.mk.injEq] at horigin
      simpa using horigin

omit haho hbuilds in
/-- What the filter for GitHub leaves. -/
theorem mem_dropGithubPages {techs : List DetectedTechnology} {url : String}
    {tech : DetectedTechnology} :
    tech ∈ dropGithubPagesOnGithubDotCom U techs url ↔
      tech ∈ techs ∧ ¬ (isGithubDotComHost U url ∧ tech.name = "GitHub Pages") := by
  unfold dropGithubPagesOnGithubDotCom
  by_cases hhost : isGithubDotComHost U url <;> simp [hhost]

/-- A detection reports the same names with the same flags and sources in all orders. -/
theorem detectionSet_detect :
    (detect R aho U toLowercase orders signals).map detectionSet =
      some ((reportedNames R aho U toLowercase ruleset signals).image fun name =>
        (name, versionUnder R aho toLowercase orders signals name,
          decide (name ∉ signalNames R aho toLowercase ruleset signals),
          some ((namedSource R aho toLowercase ruleset signals name).getD .implied).asStr)) := by
  have hbuilt : (LiteralIndex.build R aho orders.rules.technologies).builds :=
    orders.same.builds_of_builds hbuilds
  have hkept : keptNames orders.rules (names (expandedMap R aho toLowercase orders signals)) =
      keptNames ruleset (expandNames ruleset (signalNames R aho toLowercase ruleset signals)) := by
    rw [names_expandedMap orders haho hbuilds, orders.same.keptNames_eq]
  have hdetect : detectTechnologies orders.rules orders.maps.detected
      (observedSignals R aho toLowercase orders.maps orders.rules signals) =
        finalizeDetections orders.rules orders.maps.detected
          (expandedMap R aho toLowercase orders signals) := rfl
  rw [detect, detectTechnologiesBlocking, if_pos hbuilt, Option.map_some, Option.some.injEq,
    hdetect]
  ext ⟨name, version, isImplied, source⟩
  simp only [detectionSet, List.mem_toFinset, List.mem_map, mem_dropGithubPages, Finset.mem_image,
    reportedNames, Finset.mem_filter, Prod.mk.injEq]
  constructor
  · intro h
    obtain ⟨tech, ⟨htech, hgithub⟩, rfl, rfl, rfl, rfl⟩ := h
    obtain ⟨name, hname, info, hlookup, rfl⟩ := mem_finalizeDetections.mp htech
    obtain ⟨hflag, hsource⟩ := origin_expandedMap orders haho hbuilds hlookup
    refine ⟨name, ⟨hkept ▸ hname, hgithub⟩, rfl, ?_, hflag.symm, by rw [hsource]⟩
    rw [versionUnder, versionOf, hlookup]
    rfl
  · intro h
    obtain ⟨name, ⟨hname, hgithub⟩, rfl, rfl, rfl, rfl⟩ := h
    rw [← hkept] at hname
    obtain ⟨info, hlookup⟩ := exists_lookup_of_kept hname
    obtain ⟨hflag, hsource⟩ := origin_expandedMap orders haho hbuilds hlookup
    refine ⟨_, ⟨mem_finalizeDetections.mpr ⟨name, hname, info, hlookup, rfl⟩, hgithub⟩, rfl, ?_,
      hflag, by rw [hsource]⟩
    rw [versionUnder, versionOf, hlookup]
    rfl

end Described

/-! ## Every detection picks from the stages -/

section Picks

variable {R : RegexCrate} {aho : AhoCorasick} {toLowercase : String → String}
  {ruleset : FingerprintRuleset} {signals : PageSignals} {tech other : Technology}

/-- The header version is one of the possible ones. -/
theorem headerVersion_mem (hsame : SameTechnology tech other) :
    sanitizeTechnologyVersion
        (headerVersion R (normalizeHeadersToMap toLowercase signals.headers) other) ∈
      headerOutcomes R toLowercase signals tech := by
  refine ⟨_, ?_, rfl⟩
  rw [← headerEnds_eq hsame]
  exact AnyOrder.findSome?_mem_outcomes hsame.headers.keys_perm.symm

/-- The cookies of all names of a technology, each with the name that it is tried for. -/
def cookieTrials (R : RegexCrate) (cookies : HashMap String String) (tech : Technology) :
    List (String × CompiledPattern R × String) :=
  tech.cookies.keys.flatMap fun cookieName =>
    (cookieCandidates R cookies tech cookieName).map fun candidate => (cookieName, candidate)

/-- The orders permute the cookie trials of a technology. -/
theorem cookieTrials_perm {cookies others : HashMap String String}
    (hsame : SameTechnology tech other) (hcookies : SameMap cookies others) :
    (cookieTrials R cookies tech).Perm (cookieTrials R others other) :=
  hsame.cookies.keys_perm.flatMap fun cookieName _ =>
    (cookieCandidates_perm hsame hcookies cookieName).map _

/-- The search over the cookie names is a search over their trials. -/
theorem findSome?_cookieNameEnds (cookies : HashMap String String) (tech : Technology) :
    tech.cookies.keys.findSome? (cookieNameEnds R cookies tech) =
      (cookieTrials R cookies tech).findSome? fun tried => cookieEnds tried.1 tried.2 := by
  rw [cookieTrials, AnyOrder.findSome?_flatMap]
  congr 1
  funext cookieName
  rw [cookieNameEnds, List.findSome?_map]
  rfl

/-- The search over the cookie names gives a possible version. -/
theorem findSome?_cookieNameEnds_mem {cookies others : HashMap String String}
    (hsame : SameTechnology tech other) (hcookies : SameMap cookies others) :
    other.cookies.keys.findSome? (cookieNameEnds R others other) ∈
      AnyOrder.outcomes (fun tried => cookieEnds tried.1 tried.2)
        (cookieTrials R cookies tech) := by
  rw [findSome?_cookieNameEnds]
  exact AnyOrder.findSome?_mem_outcomes (cookieTrials_perm hsame hcookies).symm

/-- The cookie version is one of the possible ones. -/
theorem cookieVersion_mem {others : HashMap String String} (hsame : SameTechnology tech other)
    (hcookies : SameMap (extractCookiesNameValueMap toLowercase signals.headers) others) :
    sanitizeTechnologyVersion (cookieVersion R others other) ∈
      cookieOutcomes R toLowercase signals tech :=
  ⟨_, findSome?_cookieNameEnds_mem hsame hcookies, rfl⟩

/-- The body version is one of the possible ones. -/
theorem bodyVersion_mem (hsame : SameTechnology tech other) :
    sanitizeTechnologyVersion
        (bodyVersion (indexResult R aho ruleset.technologies)
          (metaTagResult R toLowercase signals.metaTags) other signals.page) ∈
      bodyOutcomes R aho toLowercase ruleset signals tech := by
  refine ⟨_, AnyOrder.findSome?_mem_outcomes (List.Perm.symm hsame.metaTags), ?_⟩
  rw [bodyVersion, bodyVersionWith_eq hsame]

variable (orders : Orders ruleset) {name : String}

/-- A technology that is not observed has no version in the map either. -/
theorem versionOf_mergedMap (htech : orders.rules.technologies.lookup name = some tech) :
    versionOf (mergedMap R aho toLowercase orders signals) name =
      observedVersion R aho toLowercase orders.rules signals
        (orders.maps.cookies (extractCookiesNameValueMap toLowercase signals.headers)) tech := by
  rw [versionOf, lookup_mergedMap, htech, Option.bind_some]
  cases hsource : signalSource R aho toLowercase orders.rules signals tech with
  | some source => rfl
  | none =>
      simp only [signalSource, Option.or_eq_none_iff, ite_eq_right_iff, reduceCtorEq, imp_false,
        Bool.not_eq_true] at hsource
      obtain ⟨hheader, hcookie, hbody, -⟩ := hsource
      rw [cookieHit_eq (SameTechnology.refl tech)
        (List.Perm.symm (orders.maps.cookies_perm _))] at hcookie
      rw [observedVersion, ← findingVersion_headerFinding R _ tech name,
        ← findingVersion_cookieFinding name, ← findingVersion_bodyFinding name, headerFinding,
        hheader, cookieFinding, hcookie, bodyFinding, hbody]
      rfl

/-- The stages from which the version of a technology comes. -/
theorem versionStages_eq (htech : ruleset.technologies.lookup name = some tech) :
    versionStages R aho toLowercase ruleset signals name =
      [headerOutcomes R toLowercase signals tech, cookieOutcomes R toLowercase signals tech,
        bodyOutcomes R aho toLowercase ruleset signals tech,
        impliedOutcomes ruleset name maxImpliesDepth
          (signalNames R aho toLowercase ruleset signals)] := by
  rw [versionStages, htech]
  rfl

/-- The first of four picks. -/
theorem findSome?_picks (header cookie body implied : Option String) :
    [header, cookie, body, implied].findSome? id = (header.or (cookie.or body)).or implied := by
  simp only [AnyOrder.findSome?_cons_eq_or, List.findSome?_nil, Option.or_none, Option.or_assoc, id]

variable (haho : aho.ByText) (hbuilds : (LiteralIndex.build R aho ruleset.technologies).builds)

include haho hbuilds

/-- The version of a detection is the first one of some picks from the stages. -/
theorem exists_picks_versionUnder (hname : name ∈ ruleset.technologies) :
    ∃ picks, List.Forall₂ (· ∈ ·) picks (versionStages R aho toLowercase ruleset signals name) ∧
      versionUnder R aho toLowercase orders signals name = picks.findSome? id := by
  obtain ⟨hnone, -⟩ | ⟨tech, other, htech, hother, hsame⟩ := orders.same.lookup_cases name
  · exact absurd hname (AList.lookup_eq_none.mp hnone)
  obtain ⟨answer, hanswer, hversion⟩ := @versionOf_loop orders.rules name orders.maps.detected
    maxImpliesDepth (mergedMap R aho toLowercase orders signals)
  rw [impliedOutcomes_eq orders.same, names_mergedMap orders haho hbuilds] at hanswer
  rw [versionOf_mergedMap orders hother, observedVersion,
    ← orders.same.indexResult_eq haho hbuilds, ← findSome?_picks] at hversion
  have hcookies := List.Perm.symm
    (orders.maps.cookies_perm (extractCookiesNameValueMap toLowercase signals.headers))
  rw [versionStages_eq htech]
  exact ⟨_, .cons (headerVersion_mem hsame) (.cons (cookieVersion_mem hsame hcookies)
    (.cons (bodyVersion_mem hsame) (.cons hanswer .nil))), hversion⟩

end Picks

/-! ## Every pick comes from an order -/

section Fronts

variable {R : RegexCrate} {aho : AhoCorasick} {toLowercase : String → String}
  {ruleset : FingerprintRuleset} {signals : PageSignals} {tech : Technology}

/-- The technology with a header, a cookie name and a meta key in front. -/
def frontTechnology (header cookieName metaKey : String) (tech : Technology) : Technology :=
  { tech with
    headers := AnyOrder.front header tech.headers
    cookies := AnyOrder.front cookieName tech.cookies
    metaTags := AnyOrder.front metaKey tech.metaTags }

/-- Moving keys to the front changes only orders. -/
theorem sameTechnology_front (header cookieName metaKey : String) (tech : Technology) :
    SameTechnology tech (frontTechnology header cookieName metaKey tech) where
  core := rfl
  headers := List.Perm.symm (AnyOrder.front_perm header tech.headers)
  cookies := List.Perm.symm (AnyOrder.front_perm cookieName tech.cookies)
  metaTags := List.Perm.symm (AnyOrder.front_perm metaKey tech.metaTags)
  dns := SameMap.refl _
  js := SameMap.refl _

/-- A technology may be put back in another order. -/
theorem sameRuleset_insert {name : String} {other : Technology}
    (htech : ruleset.technologies.lookup name = some tech) (hsame : SameTechnology tech other) :
    SameRuleset ruleset
      { ruleset with technologies := ruleset.technologies.insert name other } where
  technologies third := by
    by_cases hthird : third = name
    · subst hthird
      rw [htech, AList.lookup_insert]
      exact .some hsame
    · rw [AList.lookup_insert_ne hthird]
      cases ruleset.technologies.lookup third with
      | none => exact .none
      | some found => exact .some (SameTechnology.refl found)
  categories := SameMap.refl _
  metadata := rfl

/-- The orders with these entries in front. -/
def frontOrders (header cookieName metaKey cookie implier : String) {name : String}
    (htech : ruleset.technologies.lookup name = some tech) : Orders ruleset where
  rules :=
    { ruleset with
      technologies := ruleset.technologies.insert name
        (frontTechnology header cookieName metaKey tech) }
  same := sameRuleset_insert htech (sameTechnology_front header cookieName metaKey tech)
  maps :=
    { cookies := AnyOrder.front cookie
      cookies_perm := AnyOrder.front_perm cookie
      detected := frontOrder implier }

/-- Every possible header version is found in some order. -/
theorem exists_front_header {pick : Option String}
    (hpick : pick ∈ headerOutcomes R toLowercase signals tech) :
    ∃ header, ∀ cookieName metaKey, sanitizeTechnologyVersion
      (headerVersion R (normalizeHeadersToMap toLowercase signals.headers)
        (frontTechnology header cookieName metaKey tech)) = pick := by
  obtain ⟨ends, hends, rfl⟩ := hpick
  obtain ⟨header, hheader⟩ := AnyOrder.exists_front_keys_findSome? hends
  refine ⟨header, fun cookieName metaKey => ?_⟩
  rw [headerVersion, ← headerEnds_eq (sameTechnology_front header cookieName metaKey tech)]
  exact congrArg (fun ends => sanitizeTechnologyVersion ends.join) hheader

/-- Every possible body version is found in some order. -/
theorem exists_front_body {pick : Option String}
    (hpick : pick ∈ bodyOutcomes R aho toLowercase ruleset signals tech) :
    ∃ metaKey, ∀ header cookieName, sanitizeTechnologyVersion
      (bodyVersion (indexResult R aho ruleset.technologies)
        (metaTagResult R toLowercase signals.metaTags)
        (frontTechnology header cookieName metaKey tech) signals.page) = pick := by
  obtain ⟨found, hfound, rfl⟩ := hpick
  obtain ⟨metaKey, hmeta⟩ := AnyOrder.exists_front_findSome? hfound
  refine ⟨metaKey, fun header cookieName => ?_⟩
  rw [bodyVersion, ← bodyVersionWith_eq (sameTechnology_front header cookieName metaKey tech)]
  exact congrArg (fun found => sanitizeTechnologyVersion (bodyVersionWith _ _ _ found)) hmeta

/-- Every value of a cookie name is first in some order. -/
theorem exists_front_cookieValues {cookies : HashMap String String} {cookieName value : String}
    (hvalue : value ∈ cookieValues R cookies cookieName) :
    ∃ cookie rest, cookieValues R (AnyOrder.front cookie cookies) cookieName = value :: rest := by
  unfold cookieValues at hvalue ⊢
  split at hvalue
  case isTrue hwildcard =>
    simp only [if_pos hwildcard]
    cases hregex : wildcardCookieRegex R cookieName with
    | none =>
        rw [hregex] at hvalue
        exact absurd hvalue List.not_mem_nil
    | some cookieRegex =>
        rw [hregex, Option.elim_some, List.mem_map] at hvalue
        obtain ⟨⟨cookie, _⟩, hcookie, rfl⟩ := hvalue
        obtain ⟨hentry, hmatch⟩ := List.mem_filter.mp hcookie
        have hfront := AnyOrder.entries_front (AList.mem_lookup_iff.mpr hentry)
        simp only [Option.elim_some]
        exact ⟨cookie, _, by rw [hfront, List.filter_cons, if_pos hmatch, List.map_cons]⟩
  case isFalse hexact =>
    simp only [if_neg hexact, AnyOrder.lookup_front]
    rw [Option.mem_toList] at hvalue
    exact ⟨"", [], by rw [hvalue]; rfl⟩

/-- Every candidate of a cookie name is first in some order. -/
theorem exists_front_candidates {cookies : HashMap String String} {cookieName : String}
    {candidate : CompiledPattern R × String}
    (hcandidate : candidate ∈ cookieCandidates R cookies tech cookieName) :
    ∃ cookie rest, cookieCandidates R (AnyOrder.front cookie cookies) tech cookieName =
      candidate :: rest := by
  unfold cookieCandidates at hcandidate ⊢
  cases hprepared : preparedPattern R tech.cookies cookieName with
  | none =>
      rw [hprepared] at hcandidate
      exact absurd hcandidate List.not_mem_nil
  | some compiled =>
      rw [hprepared, Option.elim_some, List.mem_map] at hcandidate
      obtain ⟨value, hvalue, rfl⟩ := hcandidate
      obtain ⟨cookie, rest, hfront⟩ := exists_front_cookieValues hvalue
      exact ⟨cookie, rest.map fun value => (compiled, value), by rw [hfront]; rfl⟩

/-- Both the name and the cookie that decide can be in front. -/
theorem exists_front_cookie {pick : Option String}
    (hpick : pick ∈ cookieOutcomes R toLowercase signals tech) :
    ∃ cookieName cookie, ∀ header metaKey, sanitizeTechnologyVersion
      (cookieVersion R
        (AnyOrder.front cookie (extractCookiesNameValueMap toLowercase signals.headers))
        (frontTechnology header cookieName metaKey tech)) = pick := by
  obtain ⟨ends, hends, rfl⟩ := hpick
  set cookies := extractCookiesNameValueMap toLowercase signals.headers
  cases ends with
  | none =>
      refine ⟨"", "", fun header metaKey => ?_⟩
      have hmem := @findSome?_cookieNameEnds_mem R _ _ cookies (AnyOrder.front "" cookies)
        (sameTechnology_front header "" metaKey tech)
        (List.Perm.symm (AnyOrder.front_perm "" cookies))
      rw [cookieVersion, AnyOrder.eq_none_of_mem_outcomes hends hmem]
  | some version =>
      obtain ⟨⟨cookieName, candidate⟩, htried, hversion⟩ := hends
      obtain ⟨_, hname, hcandidate⟩ := List.mem_flatMap.mp htried
      obtain ⟨_, hcandidate, hpair⟩ := List.mem_map.mp hcandidate
      cases hpair
      have hends : cookieEnds cookieName candidate = some version := hversion
      obtain ⟨cookie, others, hfront⟩ := exists_front_candidates hcandidate
      obtain ⟨names, hnames⟩ := AnyOrder.keys_front hname
      refine ⟨cookieName, cookie, fun header metaKey => ?_⟩
      have hsame := sameTechnology_front header cookieName metaKey tech
      have hfirst : cookieNameEnds R (AnyOrder.front cookie cookies)
          (frontTechnology header cookieName metaKey tech) cookieName = some version := by
        rw [cookieNameEnds, cookieCandidates, ← preparedCookie_eq hsame, ← cookieCandidates, hfront,
          AnyOrder.findSome?_cons_eq_or, hends, Option.some_or]
      have hkeys : (frontTechnology header cookieName metaKey tech).cookies.keys =
          cookieName :: names := hnames
      rw [cookieVersion, hkeys, AnyOrder.findSome?_cons_eq_or, hfirst, Option.some_or]

variable (haho : aho.ByText) (hbuilds : (LiteralIndex.build R aho ruleset.technologies).builds)

include haho hbuilds

/-- Whatever is picked from the stages, some orders give it. -/
theorem exists_orders_versionUnder {name : String} (hname : name ∈ ruleset.technologies)
    {picks : List (Option String)}
    (hpicks : List.Forall₂ (· ∈ ·) picks
      (versionStages R aho toLowercase ruleset signals name)) :
    ∃ orders : Orders ruleset,
      versionUnder R aho toLowercase orders signals name = picks.findSome? id := by
  obtain ⟨tech, htech⟩ := Option.isSome_iff_exists.mp (AList.lookup_isSome.mpr hname)
  rw [versionStages_eq htech] at hpicks
  obtain ⟨fromHeader, _, hheader, hlater, rfl⟩ := List.forall₂_cons_right_iff.mp hpicks
  obtain ⟨fromCookie, _, hcookie, hlast, rfl⟩ := List.forall₂_cons_right_iff.mp hlater
  obtain ⟨fromBody, _, hbody, hrest, rfl⟩ := List.forall₂_cons_right_iff.mp hlast
  obtain ⟨implied, _, himplied, hnil, rfl⟩ := List.forall₂_cons_right_iff.mp hrest
  obtain rfl := List.forall₂_nil_right_iff.mp hnil
  obtain ⟨header, hheader⟩ := exists_front_header hheader
  obtain ⟨cookieName, cookie, hcookie⟩ := exists_front_cookie hcookie
  obtain ⟨metaKey, hbody⟩ := exists_front_body hbody
  have hsame := sameRuleset_insert htech (sameTechnology_front header cookieName metaKey tech)
  rw [← impliedOutcomes_eq hsame] at himplied
  obtain ⟨implier, himplier⟩ := exists_front_versionOf_loop himplied
  let orders := frontOrders header cookieName metaKey cookie implier htech
  refine ⟨orders, ?_⟩
  have hobserved : versionOf (mergedMap R aho toLowercase orders signals) name =
      fromHeader.or (fromCookie.or fromBody) := by
    rw [versionOf_mergedMap orders (AList.lookup_insert _), observedVersion,
      ← orders.same.indexResult_eq haho hbuilds, hheader, hbody]
    exact congrArg (fun pick => fromHeader.or (pick.or fromBody)) (hcookie header metaKey)
  rw [findSome?_picks, ← hobserved]
  exact himplier _ (names_mergedMap orders haho hbuilds)

end Fronts

/-! ## The result in all orders -/

section Main

variable {R : RegexCrate} {aho : AhoCorasick} {U : Security.UrlCrate}
  {toLowercase : String → String} {ruleset : FingerprintRuleset} {signals : PageSignals}

/-- One round stays within the ruleset. -/
theorem impliesStep_subset {known : Finset String}
    (hknown : ∀ name ∈ known, name ∈ ruleset.technologies) :
    ∀ name ∈ impliesStep ruleset known, name ∈ ruleset.technologies := by
  intro name hname
  rcases Finset.mem_union.mp hname with hname | hname
  · exact hknown name hname
  · exact (Finset.mem_filter.mp hname).2

/-- Only technologies of the ruleset are reported. -/
theorem mem_technologies_of_reported {name : String}
    (hname : name ∈ reportedNames R aho U toLowercase ruleset signals) :
    name ∈ ruleset.technologies := by
  have hkept := keptNames_subset _ (Finset.mem_filter.mp hname).1
  have hsignals : ∀ other ∈ signalNames R aho toLowercase ruleset signals,
      other ∈ ruleset.technologies := by
    intro other hother
    rw [AList.mem_keys, ← List.mem_toFinset]
    exact Finset.mem_of_mem_filter other hother
  rw [expandNames] at hkept
  generalize maxImpliesDepth = rounds at hkept
  generalize signalNames R aho toLowercase ruleset signals = known at hkept hsignals
  induction rounds generalizing known with
  | zero => exact hsignals name hkept
  | succ rounds ih => exact ih (impliesStep ruleset known) hkept (impliesStep_subset hsignals)

/-- The stages of a technology cannot be empty. -/
theorem versionStages_nonempty (name : String) :
    ∀ stage ∈ versionStages R aho toLowercase ruleset signals name, stage.Nonempty := by
  simp only [versionStages, List.forall_mem_cons, List.not_mem_nil, false_imp_iff, implies_true,
    and_true]
  exact ⟨(AnyOrder.outcomes_nonempty _ _).image _, (AnyOrder.outcomes_nonempty _ _).image _,
    (AnyOrder.outcomes_nonempty _ _).image _, impliedOutcomes_nonempty _ _⟩

/-- Two detections report the same exactly when they report the same versions. -/
theorem detect_eq_iff (haho : aho.ByText)
    (hbuilds : (LiteralIndex.build R aho ruleset.technologies).builds)
    (left right : Orders ruleset) :
    (detect R aho U toLowercase left signals).map detectionSet =
        (detect R aho U toLowercase right signals).map detectionSet ↔
      ∀ name ∈ reportedNames R aho U toLowercase ruleset signals,
        versionUnder R aho toLowercase left signals name =
          versionUnder R aho toLowercase right signals name := by
  rw [detectionSet_detect U left haho hbuilds, detectionSet_detect U right haho hbuilds,
    Option.some.injEq]
  constructor
  · intro hsets name hname
    have hmem := Finset.ext_iff.mp hsets
      (name, versionUnder R aho toLowercase left signals name,
        decide (name ∉ signalNames R aho toLowercase ruleset signals),
        some ((namedSource R aho toLowercase ruleset signals name).getD .implied).asStr)
    obtain ⟨other, -, hother⟩ := Finset.mem_image.mp
      (hmem.mp (Finset.mem_image.mpr ⟨name, hname, rfl⟩))
    simp only [Prod.mk.injEq] at hother
    obtain ⟨rfl, hversion, -, -⟩ := hother
    exact hversion.symm
  · intro hversions
    refine Finset.image_congr fun name hname => ?_
    rw [hversions name hname]

/-- A detection has the same result in all orders exactly when no literal index can be built, or the
versions of every technology that is reported are settled: what headers, cookies, body and
implications can give are the same version, up to the first of these that always gives one. -/
theorem detection_order_free_iff (haho : aho.ByText) (ruleset : FingerprintRuleset)
    (signals : PageSignals) :
    (∀ left right : Orders ruleset,
        (detect R aho U toLowercase left signals).map detectionSet =
          (detect R aho U toLowercase right signals).map detectionSet) ↔
      ((LiteralIndex.build R aho ruleset.technologies).builds →
        ∀ name ∈ reportedNames R aho U toLowercase ruleset signals, ∃ version,
          AnyOrder.Settled version (versionStages R aho toLowercase ruleset signals name)) := by
  by_cases hbuilds : (LiteralIndex.build R aho ruleset.technologies).builds
  · rw [imp_iff_right hbuilds]
    simp only [detect_eq_iff haho hbuilds,
      AnyOrder.exists_settled_iff (versionStages_nonempty _)]
    constructor
    · intro hagree name hname left right hleft hright
      have htechnology := mem_technologies_of_reported hname
      obtain ⟨first, hfirst⟩ := exists_orders_versionUnder haho hbuilds htechnology hleft
      obtain ⟨second, hsecond⟩ := exists_orders_versionUnder haho hbuilds htechnology hright
      rw [← hfirst, ← hsecond]
      exact hagree first second name hname
    · intro hpicks left right name hname
      have htechnology := mem_technologies_of_reported hname
      obtain ⟨first, hfirst, hleft⟩ := exists_picks_versionUnder left haho hbuilds htechnology
      obtain ⟨second, hsecond, hright⟩ := exists_picks_versionUnder right haho hbuilds htechnology
      rw [hleft, hright]
      exact hpicks name hname first second hfirst hsecond
  · -- Without the index every detection panics.
    have hnone : ∀ orders : Orders ruleset, detect R aho U toLowercase orders signals = none := by
      intro orders
      rw [detect, detectTechnologiesBlocking, if_neg (orders.same.builds_eq ▸ hbuilds)]
    simp [hnone, hbuilds]

end Main

/-! ## A technology with two headers -/

/-- A technology that two headers show, each with a version of its own. -/
def twoHeaderRuleset : FingerprintRuleset where
  technologies := List.toAList [⟨"Shop",
    { headers := List.toAList [⟨"server", "\\;version:1"⟩, ⟨"x-powered-by", "\\;version:2"⟩] }⟩]

/-- A page with these headers and nothing else. -/
def headerSignals (headers : Fetch.HeaderMap) : PageSignals where
  headers := headers
  metaTags := ∅
  page :=
    { htmlBody := "", scriptSources := [], url := "https://example.com/", inlineScriptText := "" }
  scriptTagIds := ∅

/-- The order with this header of the technology in front. -/
def headerFirst (header : String) : Orders twoHeaderRuleset :=
  frontOrders header "" "" "" ""
    (show twoHeaderRuleset.technologies.lookup "Shop" = some _ from rfl)

/-- What the technology's two headers show on a page that sends only the first. -/
theorem headerEnds_one_header :
    ∀ key ∈ (twoHeaderRuleset.technologies.lookup "Shop").elim [] (·.headers.keys),
      headerEnds literalCrate
          (normalizeHeadersToMap id (headerSignals [("server", some "shop")]).headers)
          ((twoHeaderRuleset.technologies.lookup "Shop").getD {}) key =
        if key = "server" then some (some "1") else none := by
  decide +kernel

/-- All the versions that the headers can give on that page are the first one. -/
theorem headerOutcomes_one_header {pick : Option String}
    (hpick : pick ∈ headerOutcomes literalCrate id (headerSignals [("server", some "shop")])
      ((twoHeaderRuleset.technologies.lookup "Shop").getD {})) :
    pick = some "1" := by
  obtain ⟨ends, hends, rfl⟩ := hpick
  cases ends with
  | none =>
      have hserver := hends "server" (by decide +kernel)
      rw [headerEnds_one_header "server" (by decide +kernel)] at hserver
      cases hserver
  | some ends =>
      obtain ⟨key, hkey, hshown⟩ := hends
      rw [headerEnds_one_header key hkey] at hshown
      split at hshown
      · obtain rfl := Option.some.inj hshown
        decide +kernel
      · cases hshown

/-- On a page with one of the headers the technology has the same version in both orders. -/
theorem detection_order_free_one_header :
    (detect literalCrate AhoCorasick.longestNeedle Security.exampleUrlCrate id
        (headerFirst "server") (headerSignals [("server", some "shop")])).map detectionSet =
      (detect literalCrate AhoCorasick.longestNeedle Security.exampleUrlCrate id
        (headerFirst "x-powered-by") (headerSignals [("server", some "shop")])).map
        detectionSet := by
  refine (detection_order_free_iff AhoCorasick.longestNeedle_byText _ _).mpr
    (fun _ name hname => ⟨some "1", ?_⟩) (headerFirst "server") (headerFirst "x-powered-by")
  have hreported : name ∈ ({"Shop"} : Finset String) := by
    revert name
    decide +kernel
  obtain rfl := Finset.mem_singleton.mp hreported
  refine ⟨fun found hfound => (headerOutcomes_one_header hfound).symm, fun hnone => ?_⟩
  cases headerOutcomes_one_header hnone

/-- A page with both headers gives the version of the one that comes first in the map. -/
theorem detection_follows_header_order :
    ¬ ∀ (R : RegexCrate) (aho : AhoCorasick) (U : Security.UrlCrate)
      (toLowercase : String → String) (ruleset : FingerprintRuleset) (signals : PageSignals),
      aho.ByText → ∀ left right : Orders ruleset,
        (detect R aho U toLowercase left signals).map detectionSet =
          (detect R aho U toLowercase right signals).map detectionSet := by
  intro h
  have horders := h literalCrate AhoCorasick.longestNeedle Security.exampleUrlCrate id
    twoHeaderRuleset (headerSignals [("server", some "shop"), ("x-powered-by", some "shop")])
    AhoCorasick.longestNeedle_byText (headerFirst "server") (headerFirst "x-powered-by")
  revert horders
  decide +kernel

end DomainStatus.Fingerprint
