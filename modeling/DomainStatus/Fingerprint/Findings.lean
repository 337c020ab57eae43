import DomainStatus.Fingerprint.Orders
import DomainStatus.Lib.AnyOrder

/-!
# What a page shows of one technology

The loops of detection over headers, cookies and meta tags, in closed form. Each of them ends with
the first pattern that captures a version, and those over headers and cookies also with the first
one that asks for nothing but the presence of its key. Read `Decides.forUntil` first. The findings
`headerFinding`, `cookieFinding` and `bodyFinding` depend on the orders of the maps in their version
alone.
-/

namespace DomainStatus.Fingerprint

/-! ## Loops that the first decision ends -/

/-- A loop body that takes hits in while there is no version. Some elements end the loop, with a
version or without one. -/
structure Decides {β : Type} (body : Progress → β → Progress × Bool) (hit : β → Bool)
    (ends : β → Option (Option String)) : Prop where
  eq : ∀ matched x, body { matched := matched, version := none } x =
    ({ matched := matched || hit x, version := (ends x).join }, (ends x).isSome)
  hit_of_ends : ∀ x, (ends x).isSome → hit x = true

/-- The loop has a hit when one of its elements has, and the version of the first element that ends
it. -/
theorem Decides.forUntil {β : Type} {body : Progress → β → Progress × Bool} {hit : β → Bool}
    {ends : β → Option (Option String)} (h : Decides body hit ends) (xs : List β)
    (matched : Bool) :
    Rounds.forUntil body xs { matched := matched, version := none } =
      ({ matched := matched || xs.any hit, version := (xs.findSome? ends).join },
        (xs.findSome? ends).isSome) := by
  induction xs generalizing matched with
  | nil => simp [Rounds.forUntil]
  | cons x rest ih =>
      rw [Rounds.forUntil, h.eq]
      cases hends : ends x with
      | none => simp [hends, ih, Bool.or_assoc]
      | some version => simp [hends, h.hit_of_ends x (by simp [hends])]

/-- Without a hit nothing ends the loop. -/
theorem Decides.findSome?_eq_none {β : Type} {body : Progress → β → Progress × Bool}
    {hit : β → Bool} {ends : β → Option (Option String)} (h : Decides body hit ends) {xs : List β}
    (hany : xs.any hit = false) : xs.findSome? ends = none := by
  rw [List.findSome?_eq_none_iff]
  intro x hx
  by_contra hends
  have hhit := h.hit_of_ends x (Option.isSome_iff_ne_none.mpr hends)
  exact List.any_eq_false.mp hany x hx hhit

/-! ## Findings -/

/-- What a signal with one source shows of a technology. -/
def signalFinding (hit : Bool) (version : Option String) (source : DetectionSource)
    (name : String) : Option MatchResult :=
  if hit then some { techName := name, version := version, source := source } else none

/-- A finding of a signal bears the name of its technology. -/
theorem techName_signalFinding {hit : Bool} {version : Option String} {source : DetectionSource}
    {name : String} {found : MatchResult}
    (hfound : signalFinding hit version source name = some found) : found.techName = name := by
  cases hit with
  | true =>
      cases hfound
      rfl
  | false => cases hfound

/-- A hit is reported under the source of its signal. -/
theorem source_signalFinding (hit : Bool) (version : Option String) (source : DetectionSource)
    (name : String) :
    (signalFinding hit version source name).map MatchResult.source =
      if hit then some source else none := by
  cases hit <;> rfl

/-- The version that a finding brings into the map of detected technologies. -/
def findingVersion (finding : Option MatchResult) : Option String :=
  finding.bind fun result => sanitizeTechnologyVersion result.version

/-- The version of a finding, if a version is found only with a hit. -/
theorem findingVersion_signalFinding {hit : Bool} {version : Option String}
    (hversion : hit = false → version = none) (source : DetectionSource) (name : String) :
    findingVersion (signalFinding hit version source name) = sanitizeTechnologyVersion version := by
  cases hit with
  | true => rfl
  | false =>
      rw [hversion rfl]
      rfl

section Candidates

variable {R : RegexCrate} (candidate : CompiledPattern R × String)

/-- The pattern matches the value, or the value's presence is enough. -/
def candidateHit : Bool :=
  candidate.1.presenceOnly || (candidate.1.evaluate candidate.2).matched

/-- The version that the pattern captures of the value. -/
def candidateVersion : Option String :=
  let result := candidate.1.evaluate candidate.2
  if result.matched then result.version else none

/-- The version with which the pattern ends the search, if it does. -/
def candidateEnds : Option (Option String) :=
  if candidate.1.presenceOnly then some none else (candidateVersion candidate).map some

variable {candidate}

/-- A candidate that ends the search is a hit. -/
theorem candidateHit_of_ends (h : (candidateEnds candidate).isSome) :
    candidateHit candidate = true := by
  unfold candidateEnds candidateVersion at h
  unfold candidateHit
  by_cases hpresence : candidate.1.presenceOnly
  · simp [hpresence]
  · by_cases hmatched : (candidate.1.evaluate candidate.2).matched
    · simp [hmatched]
    · simp [hpresence, hmatched] at h

/-- What one cookie value does to the progress of a cookie name. -/
theorem considerCookie_eq (compiled : CompiledPattern R) (value : String) (matched : Bool) :
    considerCookie compiled value { matched := matched, version := none } =
      ({ matched := matched || candidateHit (compiled, value),
         version := (candidateEnds (compiled, value)).join },
        (candidateEnds (compiled, value)).isSome) := by
  unfold considerCookie candidateEnds candidateHit candidateVersion absorbResult
  by_cases hpresence : compiled.presenceOnly
  · simp [hpresence]
  · by_cases hmatched : (compiled.evaluate value).matched
    · cases hversion : (compiled.evaluate value).version <;> simp [hpresence, hmatched, hversion]
    · simp [hpresence, hmatched]

end Candidates

/-! ## Headers -/

section Headers

variable (R : RegexCrate) (values : HashMap String String) (tech : Technology)

/-- The compiled pattern of a header with the header's value. -/
def headerCandidate (key : String) : Option (CompiledPattern R × String) :=
  signalCandidate R values isCspAllowlistHeader tech key

/-- Some header pattern of the technology matches. -/
def headerHit : Bool :=
  tech.headers.keys.any fun key => (headerCandidate R values tech key).any candidateHit

/-- The version with which a header ends the search, if it does. -/
def headerEnds (key : String) : Option (Option String) :=
  (headerCandidate R values tech key).bind candidateEnds

/-- The version that the headers show in the order of the technology's map. -/
def headerVersion : Option String :=
  (tech.headers.keys.findSome? (headerEnds R values tech)).join

/-- What the headers say of a technology. -/
def headerFinding : String → Option MatchResult :=
  signalFinding (headerHit R values tech) (headerVersion R values tech) .header

/-- The rounds over the header keys of a technology. -/
theorem decides_header :
    Decides (matchSignalKey R values isCspAllowlistHeader tech)
      (fun key => (headerCandidate R values tech key).any candidateHit)
      (headerEnds R values tech) := by
  constructor
  · intro matched key
    unfold headerEnds headerCandidate matchSignalKey
    cases signalCandidate R values isCspAllowlistHeader tech key with
    | none => simp
    | some candidate => exact considerCookie_eq candidate.1 candidate.2 matched
  · intro key hends
    unfold headerEnds at hends
    cases hcandidate : headerCandidate R values tech key with
    | none => simp [hcandidate] at hends
    | some candidate =>
        rw [hcandidate] at hends
        exact candidateHit_of_ends hends

/-- The header signal gives one finding per technology that is hit. -/
theorem checkHeadersWithRuleset_eq (ruleset : FingerprintRuleset) :
    checkHeadersWithRuleset R ruleset values =
      ruleset.technologies.entries.filterMap fun entry =>
        headerFinding R values entry.2 entry.1 := by
  unfold checkHeadersWithRuleset matchStringMapSignal
  refine List.filterMap_congr fun entry _ => ?_
  simp only [(decides_header R values entry.2).forUntil, Bool.false_or]
  split
  case isTrue hempty =>
    have hkeys : entry.2.headers.keys = [] := by
      rw [AList.keys, List.keys, List.isEmpty_iff.mp hempty, List.map_nil]
    simp [headerFinding, signalFinding, headerHit, hkeys]
  case isFalse => rfl

/-- The version of a header finding. -/
theorem findingVersion_headerFinding (name : String) :
    findingVersion (headerFinding R values tech name) =
      sanitizeTechnologyVersion (headerVersion R values tech) := by
  refine findingVersion_signalFinding (fun hhit => ?_) _ name
  rw [headerVersion, (decides_header R values tech).findSome?_eq_none hhit]
  rfl

variable {R values tech} {other : Technology}

/-- The order within a technology does not matter to a header candidate. -/
theorem headerCandidate_eq (hsame : SameTechnology tech other) :
    headerCandidate R values tech = headerCandidate R values other := by
  funext key
  simp only [headerCandidate, signalCandidate, preparedPattern, hsame.headers.lookup_eq]

/-- The order within a technology does not matter to a header hit. -/
theorem headerHit_eq (hsame : SameTechnology tech other) :
    headerHit R values tech = headerHit R values other := by
  unfold headerHit
  rw [headerCandidate_eq hsame, hsame.headers.keys_perm.any_eq]

/-- The order within a technology does not matter to what ends the search. -/
theorem headerEnds_eq (hsame : SameTechnology tech other) :
    headerEnds R values tech = headerEnds R values other := by
  funext key
  rw [headerEnds, headerEnds, headerCandidate_eq hsame]

end Headers

/-! ## Cookies -/

section Cookies

variable (R : RegexCrate) (cookies : HashMap String String) (tech : Technology)

/-- The values of the cookies that a cookie name stands for. -/
def cookieValues (cookieName : String) : List String :=
  if isWildcard cookieName then
    (wildcardCookieRegex R cookieName).elim [] fun cookieRegex =>
      (cookies.entries.filter fun cookie => R.isMatch cookieRegex cookie.1).map fun cookie =>
        cookie.2
  else (cookies.lookup cookieName).toList

/-- The compiled pattern of a cookie name with the values it is tried on. -/
def cookieCandidates (cookieName : String) : List (CompiledPattern R × String) :=
  (preparedPattern R tech.cookies cookieName).elim [] fun compiled =>
    (cookieValues R cookies cookieName).map fun value => (compiled, value)

/-- Some cookie pattern of the technology matches. -/
def cookieHit : Bool :=
  tech.cookies.keys.any fun cookieName =>
    (cookieCandidates R cookies tech cookieName).any candidateHit

variable {R} in
/-- The version with which a cookie ends the search, if it does. The presence of a cookie with a
wildcard name does not end it. -/
def cookieEnds (cookieName : String) (candidate : CompiledPattern R × String) :
    Option (Option String) :=
  (candidateEnds candidate).filter fun version => !isWildcard cookieName || version.isSome

/-- The version with which a cookie name ends the search, if it does. -/
def cookieNameEnds (cookieName : String) : Option (Option String) :=
  (cookieCandidates R cookies tech cookieName).findSome? (cookieEnds cookieName)

/-- The version that the cookies show in the orders of the technology's map and of theirs. -/
def cookieVersion : Option String :=
  (tech.cookies.keys.findSome? (cookieNameEnds R cookies tech)).join

/-- What the cookies say of a technology. -/
def cookieFinding : String → Option MatchResult :=
  signalFinding (cookieHit R cookies tech) (cookieVersion R cookies tech) .cookie

variable {R}

/-- The cookies of a wildcard are tried one by one. -/
theorem matchWildcardCookies_eq (cookieRegex : R.Regex) (prepared : Option (CompiledPattern R))
    (progress : Progress) :
    matchWildcardCookies R cookies cookieRegex prepared progress =
      Rounds.forUntil (fun progress candidate => considerCookie candidate.1 candidate.2 progress)
        (prepared.elim [] fun compiled =>
          ((cookies.entries.filter fun cookie => R.isMatch cookieRegex cookie.1).map fun cookie =>
            cookie.2).map fun value => (compiled, value)) progress := by
  unfold matchWildcardCookies
  rw [Rounds.forUntil_filter]
  cases prepared with
  | none =>
      induction cookies.entries.filter fun cookie => R.isMatch cookieRegex cookie.1 with
      | nil => rfl
      | cons cookie rest ih => exact ih
  | some compiled =>
      rw [Option.elim_some, List.map_map, Rounds.forUntil_map]
      rfl

/-- A version ends the search, and presence alone does not. -/
theorem findSome?_cookieEnds_wildcard {cookieName : String} (hwildcard : isWildcard cookieName)
    (compiled : CompiledPattern R) (values : List String) :
    (values.map fun value => (compiled, value)).findSome? (cookieEnds cookieName) =
      ((values.map fun value => (compiled, value)).findSome? candidateEnds).join.map some := by
  by_cases hpresence : compiled.presenceOnly
  · have hnone : ∀ value, cookieEnds cookieName (compiled, value) = none := by
      intro value
      simp [cookieEnds, candidateEnds, hpresence, hwildcard]
    have hall : (values.map fun value => (compiled, value)).findSome?
        (cookieEnds cookieName) = none := by
      rw [List.findSome?_eq_none_iff]
      simp [hnone]
    rw [hall]
    cases values with
    | nil => rfl
    | cons first rest =>
        have hends : candidateEnds (compiled, first) = some none := by
          simp [candidateEnds, hpresence]
        rw [List.map_cons, List.findSome?_cons, hends]
        rfl
  · have hends : ∀ value, candidateEnds (compiled, value) =
        (candidateVersion (compiled, value)).map some := by
      intro value
      simp [candidateEnds, hpresence]
    induction values with
    | nil => rfl
    | cons first rest ih =>
        rw [List.map_cons, List.findSome?_cons, List.findSome?_cons, cookieEnds, hends]
        cases candidateVersion (compiled, first) with
        | none => exact ih
        | some version => simp [Option.filter]

/-- For an exact cookie name the first candidate that ends decides. -/
theorem findSome?_cookieEnds_exact {cookieName : String} (hexact : isWildcard cookieName = false)
    (candidates : List (CompiledPattern R × String)) :
    candidates.findSome? (cookieEnds cookieName) = candidates.findSome? candidateEnds := by
  have hends : (cookieEnds cookieName : CompiledPattern R × String → _) = candidateEnds := by
    funext candidate
    cases hversion : candidateEnds candidate <;> simp [cookieEnds, hexact, hversion, Option.filter]
  rw [hends]

/-- The patterns of a list of candidates, tried one by one. -/
theorem decides_considerCookie :
    Decides (fun progress (candidate : CompiledPattern R × String) =>
      considerCookie candidate.1 candidate.2 progress) candidateHit candidateEnds :=
  ⟨fun matched candidate => considerCookie_eq candidate.1 candidate.2 matched,
    fun _ => candidateHit_of_ends⟩

/-- If some candidate ends the search, some candidate is a hit. -/
theorem any_candidateHit_of_ends {candidates : List (CompiledPattern R × String)}
    (hends : (candidates.findSome? candidateEnds).isSome) : candidates.any candidateHit = true := by
  obtain ⟨version, hversion⟩ := Option.isSome_iff_exists.mp hends
  obtain ⟨candidate, hmem, hcandidate⟩ := List.exists_of_findSome?_eq_some hversion
  exact List.any_eq_true.mpr ⟨candidate, hmem, candidateHit_of_ends (by simp [hcandidate])⟩

variable {cookies tech} {cookieName : String}

/-- A wildcard name ends the search with the first version. -/
theorem cookieNameEnds_wildcard (hwildcard : isWildcard cookieName) :
    cookieNameEnds R cookies tech cookieName =
      ((cookieCandidates R cookies tech cookieName).findSome? candidateEnds).join.map some := by
  unfold cookieNameEnds cookieCandidates
  cases preparedPattern R tech.cookies cookieName with
  | none => rfl
  | some compiled => exact findSome?_cookieEnds_wildcard hwildcard compiled _

/-- A wildcard cookie name goes over its candidates. -/
theorem matchCookieName_wildcard (hwildcard : isWildcard cookieName) (matched : Bool) :
    matchCookieName R cookies tech { matched := matched, version := none } cookieName =
      ({ matched := matched || (cookieCandidates R cookies tech cookieName).any candidateHit,
         version := (cookieNameEnds R cookies tech cookieName).join },
        (cookieNameEnds R cookies tech cookieName).isSome) := by
  have hcandidates : cookieCandidates R cookies tech cookieName =
      (preparedPattern R tech.cookies cookieName).elim [] fun compiled =>
        ((wildcardCookieRegex R cookieName).elim [] fun cookieRegex =>
          (cookies.entries.filter fun cookie => R.isMatch cookieRegex cookie.1).map fun cookie =>
            cookie.2).map fun value => (compiled, value) := by
    unfold cookieCandidates cookieValues
    rw [if_pos hwildcard]
  rw [cookieNameEnds_wildcard hwildcard, matchCookieName, if_pos hwildcard]
  cases hregex : wildcardCookieRegex R cookieName with
  | none =>
      have hnone : cookieCandidates R cookies tech cookieName = [] := by
        rw [hcandidates, hregex]
        cases preparedPattern R tech.cookies cookieName <;> rfl
      simp [hnone]
  | some cookieRegex =>
      simp only [hregex, Option.elim_some] at hcandidates
      dsimp only
      rw [matchWildcardCookies_eq, ← hcandidates, decides_considerCookie.forUntil]
      cases hends : ((cookieCandidates R cookies tech cookieName).findSome? candidateEnds).join with
      | none => simp
      | some version =>
          have hany : (cookieCandidates R cookies tech cookieName).any candidateHit = true := by
            refine any_candidateHit_of_ends ?_
            rw [Option.join_eq_some_iff] at hends
            rw [hends]
            rfl
          simp [hany]

/-- An exact cookie name has one candidate at most. -/
theorem matchCookieName_exact (hexact : isWildcard cookieName = false) (matched : Bool) :
    matchCookieName R cookies tech { matched := matched, version := none } cookieName =
      ({ matched := matched || (cookieCandidates R cookies tech cookieName).any candidateHit,
         version := (cookieNameEnds R cookies tech cookieName).join },
        (cookieNameEnds R cookies tech cookieName).isSome) := by
  unfold cookieNameEnds
  rw [findSome?_cookieEnds_exact hexact]
  simp only [matchCookieName, cookieCandidates, cookieValues, hexact]
  cases cookies.lookup cookieName with
  | none => cases preparedPattern R tech.cookies cookieName <;> simp
  | some cookieValue =>
      cases preparedPattern R tech.cookies cookieName with
      | none => simp
      | some compiled =>
          simp only [considerCookie_eq]
          cases hends : candidateEnds (compiled, cookieValue) <;> simp [hends]

/-- The rounds over the cookie names of a technology. -/
theorem decides_cookieName :
    Decides (matchCookieName R cookies tech)
      (fun cookieName => (cookieCandidates R cookies tech cookieName).any candidateHit)
      (cookieNameEnds R cookies tech) := by
  constructor
  · intro matched cookieName
    cases hwildcard : isWildcard cookieName with
    | true => exact matchCookieName_wildcard hwildcard matched
    | false => exact matchCookieName_exact hwildcard matched
  · intro cookieName hends
    obtain ⟨version, hversion⟩ := Option.isSome_iff_exists.mp hends
    obtain ⟨candidate, hmem, hcandidate⟩ := List.exists_of_findSome?_eq_some hversion
    rw [cookieEnds, Option.filter_eq_some_iff] at hcandidate
    exact List.any_eq_true.mpr
      ⟨candidate, hmem, candidateHit_of_ends (by simp [hcandidate.1])⟩

/-- The cookie signal gives one finding per technology that is hit. -/
theorem checkCookiesWithRuleset_eq (cookies : HashMap String String)
    (ruleset : FingerprintRuleset) :
    checkCookiesWithRuleset R ruleset cookies =
      ruleset.technologies.entries.filterMap fun entry =>
        cookieFinding R cookies entry.2 entry.1 := by
  unfold checkCookiesWithRuleset
  refine List.filterMap_congr fun entry _ => ?_
  simp only [decides_cookieName.forUntil, Bool.false_or]
  split
  case isTrue hempty =>
    have hkeys : entry.2.cookies.keys = [] := by
      rw [AList.keys, List.keys, List.isEmpty_iff.mp hempty, List.map_nil]
    simp [cookieFinding, signalFinding, cookieHit, hkeys]
  case isFalse => rfl

/-- The version of a cookie finding. -/
theorem findingVersion_cookieFinding (name : String) :
    findingVersion (cookieFinding R cookies tech name) =
      sanitizeTechnologyVersion (cookieVersion R cookies tech) := by
  refine findingVersion_signalFinding (fun hhit => ?_) _ name
  rw [cookieVersion, decides_cookieName.findSome?_eq_none hhit]
  rfl

variable {other : Technology} {others : HashMap String String}

/-- The order within a technology does not matter to its compiled cookie patterns. -/
theorem preparedCookie_eq (hsame : SameTechnology tech other) :
    preparedPattern R tech.cookies = preparedPattern R other.cookies := by
  funext cookieName
  simp only [preparedPattern, hsame.cookies.lookup_eq]

/-- The order of the cookies permutes the values a name is tried on. -/
theorem cookieValues_perm (hcookies : SameMap cookies others) (cookieName : String) :
    (cookieValues R cookies cookieName).Perm (cookieValues R others cookieName) := by
  unfold cookieValues
  split
  · cases wildcardCookieRegex R cookieName with
    | none => exact .nil
    | some cookieRegex => exact (hcookies.filter _).map _
  · rw [hcookies.lookup_eq]

/-- The order of the cookies permutes the candidates of a name. -/
theorem cookieCandidates_perm (hsame : SameTechnology tech other)
    (hcookies : SameMap cookies others) (cookieName : String) :
    (cookieCandidates R cookies tech cookieName).Perm
      (cookieCandidates R others other cookieName) := by
  unfold cookieCandidates
  rw [preparedCookie_eq hsame]
  cases preparedPattern R other.cookies cookieName with
  | none => exact .nil
  | some compiled => exact (cookieValues_perm hcookies cookieName).map _

/-- No order matters to a cookie hit. -/
theorem cookieHit_eq (hsame : SameTechnology tech other) (hcookies : SameMap cookies others) :
    cookieHit R cookies tech = cookieHit R others other := by
  unfold cookieHit
  rw [hsame.cookies.keys_perm.any_eq]
  congr 1
  funext cookieName
  exact (cookieCandidates_perm hsame hcookies cookieName).any_eq

end Cookies

/-! ## Body -/

section Body

variable (result : BodyTrial → PatternMatchResult) (metaResult : String → List String →
  PatternMatchResult) (tech : Technology) (page : PageText)

/-- Some meta tag of the technology matches. -/
def metaHit : Bool :=
  tech.metaTags.entries.any fun entry => (metaResult entry.1 entry.2).matched

variable {tech} in
/-- The version that a meta key captures. -/
def metaEnds (entry : Sigma fun _ : String => List String) : Option String :=
  if (metaResult entry.1 entry.2).matched then (metaResult entry.1 entry.2).version else none

/-- The version that the body shows when the meta tags show the given one. -/
def bodyVersionWith (found : Option String) : Option String :=
  ((trialsBeforeMeta tech page).findSome? (trialVersion result)).or
    (found.or ((channelTrials tech .url page.url).findSome? (trialVersion result)))

/-- The version that the body shows in the order of the technology's meta keys. -/
def bodyVersion : Option String :=
  bodyVersionWith result tech page (tech.metaTags.entries.findSome? (metaEnds metaResult))

/-- Where the body first shows the technology, if it does. -/
def bodySource : Option DetectionSource :=
  (((trialsBeforeMeta tech page).find? fun trial => (result trial).matched).map fun trial =>
      trial.kind.source).or
    ((if metaHit metaResult tech then some DetectionSource.html else none).or
      (((channelTrials tech .url page.url).find? fun trial => (result trial).matched).map
        fun trial => trial.kind.source))

/-- What the body says of a technology, with the channel that it was found in. -/
def bodyFinding (name : String) : Option MatchResult :=
  (bodySource result metaResult tech page).map fun source =>
    { techName := name, version := bodyVersion result metaResult tech page, source := source }

variable {result metaResult tech page}

/-- The rounds over patterns whose results are absorbed. -/
theorem decides_absorbResult {β : Type} (f : β → PatternMatchResult) :
    Decides (fun progress x => absorbResult progress (f x)) (fun x => (f x).matched)
      (fun x => (if (f x).matched then (f x).version else none).map some) := by
  constructor
  · intro matched x
    unfold absorbResult
    by_cases hmatched : (f x).matched
    · cases (f x).version <;> simp [hmatched]
    · simp [hmatched]
  · intro x hends
    by_contra hmatched
    simp [hmatched] at hends

/-- Wrapping each answer once more does not change the first one. -/
theorem join_findSome?_map_some {α β : Type} (f : α → Option β) (xs : List α) :
    (xs.findSome? fun x => (f x).map some).join = xs.findSome? f := by
  induction xs with
  | nil => rfl
  | cons x rest ih => cases hx : f x <;> simp [hx, ih]

/-- What the meta tags add to a verdict. -/
theorem unlessVersion_meta {verdict : Verdict} (hverdict : verdict.Consistent)
    (tech : Technology) :
    unlessVersion Verdict.version
        (fun verdict => verdict.advance .html
          (Rounds.forUntil (fun progress (entry : Sigma fun _ : String => List String) =>
            absorbResult progress (metaResult entry.1 entry.2)) tech.metaTags.entries
              verdict.progress).1)
        verdict =
      { matched := verdict.matched || metaHit metaResult tech
        version := verdict.version.or (tech.metaTags.entries.findSome? (metaEnds metaResult))
        source := verdict.source.or (if metaHit metaResult tech then some .html else none) } := by
  unfold unlessVersion
  cases verdict with
  | mk matched version source =>
      have hsource := hverdict.source
      have hversion := hverdict.version
      cases version with
      | some version => cases source <;> simp_all
      | none =>
          have hloop : (Rounds.forUntil
              (fun progress (entry : Sigma fun _ : String => List String) =>
                absorbResult progress (metaResult entry.1 entry.2)) tech.metaTags.entries
                { matched := matched, version := none }).1 =
              { matched := matched || metaHit metaResult tech
                version := tech.metaTags.entries.findSome? (metaEnds metaResult) } := by
            rw [(decides_absorbResult fun entry : Sigma fun _ : String => List String =>
              metaResult entry.1 entry.2).forUntil, join_findSome?_map_some]
            rfl
          simp only [Option.isNone_none, if_true, Verdict.progress, hloop]
          cases source with
          | none =>
              obtain rfl : matched = false := hsource.symm
              simp [Verdict.advance]
          | some source =>
              obtain rfl : matched = true := hsource.symm
              simp [Verdict.advance]

/-- The result of a consistent verdict has its first source. -/
theorem Verdict.Consistent.result_eq {verdict : Verdict} (hverdict : verdict.Consistent)
    (name : String) :
    verdict.result name = verdict.source.map fun source =>
      { techName := name, version := verdict.version, source := source } := by
  have hsource := hverdict.source
  unfold Verdict.result
  cases hfirst : verdict.source with
  | none =>
      rw [hfirst] at hsource
      simp [← hsource]
  | some source =>
      rw [hfirst] at hsource
      simp [← hsource]

/-- A meta tag that ends the search is a hit. -/
theorem metaHit_of_ends (h : (tech.metaTags.entries.findSome? (metaEnds metaResult)).isSome) :
    metaHit metaResult tech = true := by
  obtain ⟨version, hversion⟩ := Option.isSome_iff_exists.mp h
  obtain ⟨entry, hentry, hends⟩ := List.exists_of_findSome?_eq_some hversion
  refine List.any_eq_true.mpr ⟨entry, hentry, ?_⟩
  by_contra hmatched
  simp [metaEnds, hmatched] at hends

/-- The meta tags keep a verdict consistent. -/
theorem consistent_meta {verdict : Verdict} (hverdict : verdict.Consistent) (hit : Bool)
    (found : Option String) (hfound : found.isSome → hit = true) :
    Verdict.Consistent
      { matched := verdict.matched || hit
        version := verdict.version.or found
        source := verdict.source.or (if hit then some .html else none) } := by
  have hsource := hverdict.source
  have hversion := hverdict.version
  constructor
  · cases hit <;> simp [hsource]
  · cases hit with
    | true => simp
    | false => cases found <;> simp_all

/-- A finding of the body bears the name of its technology. -/
theorem techName_bodyFinding {name : String} {found : MatchResult}
    (hfound : bodyFinding result metaResult tech page name = some found) :
    found.techName = name := by
  obtain ⟨source, -, rfl⟩ := Option.map_eq_some_iff.mp hfound
  rfl

/-- A finding of the body is reported under the first source that hits. -/
theorem source_bodyFinding (name : String) :
    (bodyFinding result metaResult tech page name).map MatchResult.source =
      bodySource result metaResult tech page := by
  rw [bodyFinding, Option.map_map]
  exact Option.map_id'

/-- The version of a body finding. -/
theorem findingVersion_bodyFinding (name : String) :
    findingVersion (bodyFinding result metaResult tech page name) =
      sanitizeTechnologyVersion (bodyVersion result metaResult tech page) := by
  unfold bodyFinding
  cases hsource : bodySource result metaResult tech page with
  | some source => rfl
  | none =>
      rw [bodySource, Option.or_eq_none_iff, Option.or_eq_none_iff, Option.map_eq_none_iff,
        Option.map_eq_none_iff] at hsource
      obtain ⟨hbefore, hmeta, hurl⟩ := hsource
      have hnone : tech.metaTags.entries.findSome? (metaEnds metaResult) = none := by
        by_contra hfound
        rw [metaHit_of_ends (Option.isSome_iff_ne_none.mpr hfound)] at hmeta
        cases hmeta
      rw [bodyVersion, bodyVersionWith, findSome?_trialVersion_of_none hbefore, hnone,
        findSome?_trialVersion_of_none hurl]
      rfl

section Index

variable (R : RegexCrate) (aho : AhoCorasick) (technologies : HashMap String Technology)
  (toLowercase : String → String) (metaTags : HashMap String (List String))

/-- The result of a meta key of a rule with its patterns. -/
def metaTagResult (metaKey : String) (patterns : List String) : PatternMatchResult :=
  checkCompiledMetaPatterns toLowercase metaKey (patterns.filterMap (compilePattern R)) metaTags

/-- The loop over the meta tags as one search. -/
theorem matchMeta_eq (tech : Technology) (progress : Progress) :
    matchMeta toLowercase (preparedMeta R tech) metaTags progress =
      (Rounds.forUntil (fun progress (entry : Sigma fun _ : String => List String) =>
        absorbResult progress (metaTagResult R toLowercase metaTags entry.1 entry.2))
        tech.metaTags.entries progress).1 := by
  rw [matchMeta, preparedMeta, Rounds.forUntil_map]
  rfl

variable {R aho technologies}

/-- The literal index and the meta tags find of a technology what its finding says. -/
theorem checkTechnology_result {name : String} {tech : Technology}
    (htech : technologies.lookup name = some tech) (page : PageText) :
    (checkTechnology toLowercase (LiteralIndex.build R aho technologies) metaTags page name
        tech).result name =
      bodyFinding (indexResult R aho technologies) (metaTagResult R toLowercase metaTags) tech page
        name := by
  have hgood : ∀ verdict : Verdict, verdict.Consistent → (id verdict).Consistent := fun _ h => h
  have hadvance := @advances_beforeMeta R aho _ _ _ htech page
  have hurl := (@advances_matchChannel R aho _ _ _ htech .url page.url).unlessVersion hgood
  have hbefore := (hadvance.verdict _ Verdict.consistent_start).trans (foldl_absorb _ _ _)
  have hconsistent := hadvance.keeps _ Verdict.consistent_start
  have hmeta := @unlessVersion_meta (metaTagResult R toLowercase metaTags) _ hconsistent tech
  simp only [← matchMeta_eq] at hmeta
  have hmiddle := consistent_meta hconsistent (metaHit (metaTagResult R toLowercase metaTags) tech)
    (tech.metaTags.entries.findSome? (metaEnds (metaTagResult R toLowercase metaTags)))
    metaHit_of_ends
  rw [← hmeta] at hmiddle
  have hlast := (hurl.verdict _ hmiddle).trans (foldl_absorb _ _ _)
  calc (checkTechnology toLowercase (LiteralIndex.build R aho technologies) metaTags page name
        tech).result name
      = _ := (hurl.keeps _ hmiddle).result_eq name
    _ = _ := by
      simp only [id] at hlast hbefore ⊢
      rw [hlast, hmeta, hbefore]
      simp only [bodyFinding, bodySource, bodyVersion, bodyVersionWith, Verdict.start,
        Option.none_or, Option.or_assoc]

/-- The body signal gives one finding per technology that is hit. -/
theorem checkBodyWithRuleset_findings (ruleset : FingerprintRuleset) (page : PageText) :
    checkBodyWithRuleset R toLowercase aho ruleset page metaTags =
      ruleset.technologies.entries.filterMap fun entry =>
        bodyFinding (indexResult R aho ruleset.technologies) (metaTagResult R toLowercase metaTags)
          entry.2 page entry.1 := by
  unfold checkBodyWithRuleset
  refine List.filterMap_congr fun entry hentry => ?_
  split
  case isTrue hempty =>
    simp only [hasNoBodyPatterns, Bool.and_eq_true, List.isEmpty_iff] at hempty
    have hbefore : trialsBeforeMeta entry.2 page = [] := by
      simp [trialsBeforeMeta, channelTrials, Technology.patterns, hempty]
    simp [bodyFinding, bodySource, hbefore, metaHit, channelTrials, Technology.patterns, hempty]
  case isFalse =>
    exact checkTechnology_result toLowercase metaTags (AList.mem_lookup_iff.mpr hentry) page

end Index

variable {other : Technology}

/-- The order within a technology does not matter to the trials of a channel. -/
theorem channelTrials_eq (hsame : SameTechnology tech other) (kind : ChannelKind) :
    channelTrials tech kind = channelTrials other kind := by
  have hpatterns : tech.patterns kind = other.patterns kind := by
    have hcore := congrArg (fun tech => tech.patterns kind) hsame.core
    cases kind <;> exact hcore
  funext text
  rw [channelTrials, channelTrials, hpatterns]

/-- The order within a technology does not matter to the trials before the meta tags. -/
theorem trialsBeforeMeta_eq (hsame : SameTechnology tech other) :
    trialsBeforeMeta tech page = trialsBeforeMeta other page := by
  simp only [trialsBeforeMeta, channelTrials_eq hsame]

/-- The order within a technology does not matter to the source of its body finding. -/
theorem bodySource_eq (hsame : SameTechnology tech other) :
    bodySource result metaResult tech page = bodySource result metaResult other page := by
  have hmeta : metaHit metaResult tech = metaHit metaResult other := List.Perm.any_eq hsame.metaTags
  simp only [bodySource, trialsBeforeMeta_eq hsame, channelTrials_eq hsame, hmeta]

/-- The order within a technology does not matter to its version, the meta tags apart. -/
theorem bodyVersionWith_eq (hsame : SameTechnology tech other) :
    bodyVersionWith result tech page = bodyVersionWith result other page := by
  funext found
  simp only [bodyVersionWith, trialsBeforeMeta_eq hsame, channelTrials_eq hsame]

end Body

/-! ## Script tags -/

section ScriptTags

variable (scriptTagIds : Finset String) (tech : Technology)

/-- The page has a script element with an id that the technology asks for. -/
def jsHit : Bool :=
  tech.js.keys.any (· ∈ scriptTagIds)

/-- What the ids of script elements say of a technology. -/
def jsFinding : String → Option MatchResult :=
  signalFinding (jsHit scriptTagIds tech) none .js

/-- A script tag gives no version. -/
theorem findingVersion_jsFinding (name : String) :
    findingVersion (jsFinding scriptTagIds tech name) = none :=
  findingVersion_signalFinding (fun _ => rfl) _ name

/-- The script tags give one finding per technology that is hit. -/
theorem checkScriptTagIds_eq (ruleset : FingerprintRuleset) :
    checkScriptTagIds ruleset scriptTagIds =
      ruleset.technologies.entries.filterMap fun entry =>
        jsFinding scriptTagIds entry.2 entry.1 := by
  unfold checkScriptTagIds
  split
  case isTrue hempty =>
    rw [Eq.comm, List.filterMap_eq_nil_iff]
    intro entry _
    simp [jsFinding, signalFinding, jsHit, hempty]
  case isFalse =>
    refine List.filterMap_congr fun entry _ => ?_
    split
    case isTrue hempty =>
      have hkeys : entry.2.js.keys = [] := by
        rw [AList.keys, List.keys, List.isEmpty_iff.mp hempty, List.map_nil]
      simp [jsFinding, signalFinding, jsHit, hkeys]
    case isFalse => rfl

variable {scriptTagIds tech} {other : Technology}

/-- The order within a technology does not matter to a script tag hit. -/
theorem jsHit_eq (hsame : SameTechnology tech other) :
    jsHit scriptTagIds tech = jsHit scriptTagIds other :=
  hsame.js.keys_perm.any_eq

end ScriptTags

end DomainStatus.Fingerprint
