import DomainStatus.Fingerprint.RulesetCache

/-!
# The ruleset of a process

How a process comes to its ruleset, after `src/fingerprint/ruleset/mod.rs`: from the slot that all
calls share, from the cache directory, from the sources, or from the vendored subset. What the
sources answer is an input of each call, and so are the texts that are compiled into the program.
Read `loadRuleset_honours` first: with an empty slot a call honours its arguments. By
`init_ruleset_first_wins` the first call that succeeds decides for the whole process.
-/

namespace DomainStatus.Fingerprint

/-- The version of the cached form, which is part of the name of each cache directory. -/
def cacheSchemaVersion : String :=
  "4"

/-- The sources when none is named, `DEFAULT_FINGERPRINTS_URLS`. -/
def defaultFingerprintsUrls : List String :=
  ["https://raw.githubusercontent.com/enthec/webappanalyzer/main/src/technologies",
    "https://raw.githubusercontent.com/HTTPArchive/wappalyzer/main/src/technologies"]

/-- The fewest technologies of a full catalog. -/
def minFullTechnologies : ℕ :=
  1000

/-- The name of the cache directory for a list of sources. -/
def fingerprintCacheKey (sha256Hex : String → String) : List String → String
  | [] => "default-schema" ++ cacheSchemaVersion
  | [source] => sha256Hex (cacheSchemaVersion ++ "\n" ++ source)
  | sources => sha256Hex (cacheSchemaVersion ++ "\n" ++ "\n".intercalate sources)

/-- The label of a list of sources in the metadata. -/
def fingerprintSourceLabel : List String → String
  | [source] => source
  | sources => "\n".intercalate sources

/-! ## Technologies -/

/-- Keeps the `js` keys that look like the id of a script element. -/
def isScriptIdJsKey (key : String) : Bool :=
  let k := Text.trim key
  k ≠ "" && (Text.startsWith k "__" ||
    Text.contains (Text.toAsciiUppercase k).toList "DATA".toList)

/-- True when `js` is the only signal. -/
def isJsOnlyTechnology (tech : Technology) : Bool :=
  !tech.js.entries.isEmpty && tech.headers.entries.isEmpty && tech.cookies.entries.isEmpty &&
    tech.metaTags.entries.isEmpty && tech.script.isEmpty && tech.scripts.isEmpty &&
    tech.html.isEmpty && tech.url.isEmpty && tech.dns.entries.isEmpty && tech.certIssuer.isEmpty

/-- Collects entries into a map. A later entry replaces an earlier one with its key. -/
def collect {ν : Type} (entries : List (String × ν)) : HashMap String ν :=
  entries.foldl (fun map (key, value) => map.insert key value) ∅

/-- The entries of a map in the order of its iterator. -/
def entriesOf {κ ν : Type} (map : HashMap κ ν) : List (κ × ν) :=
  map.entries.map fun entry => (entry.1, entry.2)

/-- Drops what matching never reads. A technology that only runtime values show goes. -/
def pruneTechnologyForStaticDetection (tech : Technology) : Option Technology :=
  let js := collect (((entriesOf tech.js).filter fun (key, _) => isScriptIdJsKey key).map
    fun (key, _) => (key, ""))
  if isJsOnlyTechnology tech && js.entries.isEmpty then none
  else some { tech with website := "", js := js }

/-- Brings a technology into the form that matching works with. -/
def ingestTechnology (toLowercase : String → String) (tech : Technology) : Option Technology :=
  let lowerKeys := fun map : HashMap String String =>
    collect ((entriesOf map).map fun (key, pattern) => (toLowercase key, pattern))
  pruneTechnologyForStaticDetection
    { tech with headers := lowerKeys tech.headers, cookies := lowerKeys tech.cookies }

/-- Adds the technologies of a source. They replace the ones with their names. -/
def mergeTechnologies (toLowercase : String → String)
    (technologies added : HashMap String Technology) : HashMap String Technology :=
  (entriesOf added).foldl
    (fun technologies (name, tech) =>
      match ingestTechnology toLowercase tech with
      | some tech => technologies.insert name tech
      | none => technologies)
    technologies

/-! ## Loading -/

/-- What is compiled into the program, and the functions of other crates that a load uses. A text
that does not parse gives its error. -/
structure Build where
  toLowercase : String → String
  sha256Hex : String → String
  overlay : Except String (HashMap String Technology)
  vendoredTechnologies : Except String (HashMap String Technology)
  /-- The names of the categories. -/
  vendoredCategories : Except String (HashMap String String)
  /-- The cache directory when a call names none. -/
  defaultCacheDir : String

/-- What the outside answers to one call. -/
structure Answers where
  loadTime : ℕ
  fetchTime : ℕ
  fetchFromUrl : String → Except String (HashMap String Technology)
  loadFromPath : String → Except String (HashMap String Technology)
  fetchCategoriesFromUrl : String → Except String (HashMap ℕ String)
  loadCategoriesFromPath : String → Except String (HashMap ℕ String)
  getLatestCommitSha : String → Option String
  /-- The error that stops the save of the ruleset, and the file replacements before it. -/
  saveError : Option (ℕ × String) := none
  /-- The directories that cannot be removed. -/
  keepsDir : String → Bool := fun _ => false

variable (build : Build)

/-- Adds the technologies of the overlay, which replace the ones with their names. -/
def applyFirstPartyOverlay (technologies : HashMap String Technology) :
    Except String (HashMap String Technology) :=
  match build.overlay with
  | .ok overlay => .ok (mergeTechnologies build.toLowercase technologies overlay)
  | .error _ => .error "Failed to parse fingerprint overlay.json"

/-- Every load ends here. -/
def finishRuleset (ruleset : FingerprintRuleset) : Except String FingerprintRuleset := do
  let technologies ← applyFirstPartyOverlay build ruleset.technologies
  return { ruleset with technologies := technologies }

/-- The vendored subset as it is in the program. -/
def loadVendoredRuleset (now : ℕ) : Except String FingerprintRuleset := do
  let technologies ← build.vendoredTechnologies.mapError
    fun _ => "Failed to parse vendored technologies.json"
  let categoriesMap ← build.vendoredCategories.mapError
    fun _ => "Failed to parse vendored categories.json"
  let categories := (entriesOf categoriesMap).foldl
    (fun categories (id, name) =>
      match Text.parseU32 id.toList with
      | some id => categories.insert id name
      | none => categories) ∅
  return { technologies := technologies, categories := categories,
           metadata := { source := "vendored:assets/fingerprints", version := "bundled-minimal",
                         lastUpdated := now } }

/-- The vendored subset with its technologies ingested and the overlay applied. -/
def vendoredSubset (now : ℕ) : Except String FingerprintRuleset := do
  let vendored ← loadVendoredRuleset build now
  finishRuleset build
    { vendored with technologies := mergeTechnologies build.toLowercase ∅ vendored.technologies }

/-- The failed sources with their errors, as the messages list them. -/
def failedSources (failures : List (String × String)) : String :=
  if failures.isEmpty then ""
  else " Failed sources:" ++
    String.join (failures.map fun (source, error) => " [" ++ source ++ ": " ++ error ++ "]")

/-- The error speaks of a rate limit. -/
def isGithubRateLimitError (error : String) : Bool :=
  Text.contains (Text.toAsciiLowercase error).toList "rate limit".toList

/-- The message of a call that does not get a full catalog. -/
def catalogUnavailableError (failures : List (String × String)) : String :=
  "Full fingerprint catalog unavailable. Refusing to start a scan with an incomplete " ++
    "technology ruleset. Retry when GitHub is reachable, pass --fingerprints, or " ++
    "--allow-degraded-fingerprints for the vendored subset." ++
    failedSources failures ++
    (if failures.any fun (_, error) => isGithubRateLimitError error then
      " GITHUB_TOKEN is optional rate-limit headroom (60 → 5000 requests/hour)." else "") ++
    (if failures.any fun (_, error) => Text.contains error.toList "401".toList ||
        Text.contains (Text.toAsciiLowercase error).toList "bad credentials".toList then
      " GITHUB_TOKEN was rejected (401). Unset it or use a valid token." else "")

/-- The vendored subset for a call that allows it, and an error for another one. -/
def vendoredOrErr (now : ℕ) (allowDegraded : Bool) (failures : List (String × String)) :
    Except String FingerprintRuleset :=
  if allowDegraded then vendoredSubset build now else .error (catalogUnavailableError failures)

/-- All sources answered, and they have enough technologies. -/
def catalogIsComplete (successfulSources expected techCount : ℕ) : Bool :=
  successfulSources == expected && minFullTechnologies ≤ techCount

/-- What the loop over the sources has collected. -/
structure Fetched where
  technologies : HashMap String Technology := ∅
  categories : HashMap ℕ String := ∅
  versions : List String := []
  successfulSources : ℕ := 0
  failures : List (String × String) := []

/-- Adds one source. A source that fails is passed over. -/
def fetchSource (answers : Answers) (fetched : Fetched) (source : String) : Fetched :=
  let remote := Text.startsWith source "http://" || Text.startsWith source "https://"
  match if remote then answers.fetchFromUrl source else answers.loadFromPath source with
  | .error error => { fetched with failures := fetched.failures ++ [(source, error)] }
  | .ok technologies =>
      let categories :=
        match if remote then answers.fetchCategoriesFromUrl source
          else answers.loadCategoriesFromPath source with
        | .ok categories => categories
        | .error _ => ∅
      let isGithub := Text.contains source.toList "github.com".toList ||
        Text.contains source.toList "raw.githubusercontent.com".toList
      let version := if isGithub then answers.getLatestCommitSha source else none
      { fetched with
        technologies := mergeTechnologies build.toLowercase fetched.technologies technologies
        categories := (entriesOf categories).foldl
          (fun categories (id, name) => categories.insert id name) fetched.categories
        versions := fetched.versions ++ (version.map fun sha => source ++ ":" ++ sha).toList
        successfulSources := fetched.successfulSources + 1 }

/-- The ruleset of the sources, and whether it is to be saved under their cache key. -/
def fetchRulesetFromMultipleSources (answers : Answers) (sources : List String)
    (explicit allowDegraded : Bool) : Except String (FingerprintRuleset × Bool) := do
  let fetched := sources.foldl (fetchSource build answers) {}
  if fetched.successfulSources = 0 then
    let ruleset ← vendoredOrErr build answers.fetchTime allowDegraded fetched.failures
    return (ruleset, false)
  else
    let ruleset ← finishRuleset build
      { technologies := fetched.technologies, categories := fetched.categories,
        metadata :=
          { source := fingerprintSourceLabel sources,
            version := if fetched.versions.isEmpty then "unknown"
              else ";".intercalate fetched.versions,
            lastUpdated := answers.fetchTime } }
    let techCount := ruleset.technologies.entries.length
    if !explicit && !catalogIsComplete fetched.successfulSources sources.length techCount then
      if allowDegraded then return (ruleset, false)
      else throw (catalogUnavailableError fetched.failures)
    else return (ruleset, explicit || minFullTechnologies ≤ techCount)

/-! ## A process -/

/-- The arguments of a call. -/
structure InitArgs where
  fingerprintsSource : Option String
  cacheDir : Option String := none
  allowDegraded : Bool

/-- The sources that a call asks for. -/
def InitArgs.sources (args : InitArgs) : List String :=
  match args.fingerprintsSource with
  | some source => [source]
  | none => defaultFingerprintsUrls

/-- The files of every cache directory, by directory and cache key. -/
abbrev Disk :=
  String → String → CacheFiles

/-- A save, with the removal of the directories of other keys when it is complete. -/
def Disk.save (json : RulesetJson) (answers : Answers) (cacheDir cacheKey : String)
    (ruleset : FingerprintRuleset) (disk : Disk) : Disk :=
  let writes := (answers.saveError.map Prod.fst).getD 3
  let saved := saveToCache json ruleset writes (disk cacheDir cacheKey)
  Function.update disk cacheDir fun key =>
    if key = cacheKey then saved
    else if answers.saveError.isNone && !answers.keepsDir key then fun _ => none
    else disk cacheDir key

/-- The ruleset of a call whose process has none yet, from the cache directory or the sources, and
the disk after it. -/
def loadRuleset (json : RulesetJson) (args : InitArgs) (answers : Answers) (disk : Disk) :
    Except String FingerprintRuleset × Disk :=
  let explicit := args.fingerprintsSource.isSome
  let cachePath := args.cacheDir.getD build.defaultCacheDir
  let cacheKey := fingerprintCacheKey build.sha256Hex args.sources
  let fetch : Except String FingerprintRuleset × Disk :=
    match fetchRulesetFromMultipleSources build answers args.sources explicit
      args.allowDegraded with
    | .error error => (.error error, disk)
    | .ok (ruleset, false) => (.ok ruleset, disk)
    | .ok (ruleset, true) =>
        let after := disk.save json answers cachePath cacheKey ruleset
        match answers.saveError with
        | some (_, error) => (.error error, after)
        | none => (.ok ruleset, after)
  match loadFromCache json answers.loadTime cachePath cacheKey
    (fingerprintSourceLabel args.sources) (disk cachePath cacheKey) with
  | .error _ => fetch
  | .ok cached =>
      match finishRuleset build cached with
      | .error error => (.error error, disk)
      | .ok ruleset =>
          -- A cached default catalog below the floor is fetched again.
          if explicit || minFullTechnologies ≤ ruleset.technologies.entries.length then
            (.ok ruleset, disk)
          else fetch

/-- The slot of the process, the disk, and the calls so far with their results. -/
structure InitState where
  slot : Option FingerprintRuleset := none
  disk : Disk
  results : List (InitArgs × Except String FingerprintRuleset) := []

/-- Something else may write to the cache directories between two calls. -/
inductive InitEvent where
  | initRuleset (args : InitArgs) (answers : Answers)
  | diskChange (disk : Disk)

/-- One call of `init_ruleset`. -/
def initRuleset (json : RulesetJson) (state : InitState) (args : InitArgs) (answers : Answers) :
    Except String FingerprintRuleset × InitState :=
  match state.slot with
  | some cached => (.ok cached, state)
  | none =>
      match loadRuleset build json args answers state.disk with
      | (.ok ruleset, disk) => (.ok ruleset, { state with slot := some ruleset, disk := disk })
      | (.error error, disk) => (.error error, { state with disk := disk })

/-- A call, or a change of the disk between two calls. -/
def initStep (json : RulesetJson) (state : InitState) : InitEvent → InitState
  | .initRuleset args answers =>
      let (result, next) := initRuleset build json state args answers
      { next with results := state.results ++ [(args, result)] }
  | .diskChange disk => { state with disk := disk }

/-- The ruleset is labelled with the sources of the call, or it is the vendored subset and the call
allows it. A call without a source that does not allow less gets a full catalog. -/
def Honours (args : InitArgs) (ruleset : FingerprintRuleset) : Prop :=
  (ruleset.metadata.source = fingerprintSourceLabel args.sources ∨
    (args.allowDegraded = true ∧ ∃ now, vendoredSubset build now = .ok ruleset)) ∧
  (args.fingerprintsSource = none → args.allowDegraded = false →
    minFullTechnologies ≤ ruleset.technologies.entries.length)

/-! ## One call -/

variable {build} {json : RulesetJson} {args : InitArgs} {answers : Answers}
  {ruleset : FingerprintRuleset}

/-- The last step keeps the metadata. -/
theorem finishRuleset_metadata {finished : FingerprintRuleset}
    (h : finishRuleset build ruleset = .ok finished) : finished.metadata = ruleset.metadata := by
  simp only [finishRuleset, Except.bind_eq_ok, Except.pure_eq_ok] at h
  obtain ⟨technologies, -, rfl⟩ := h
  rfl

/-- A fetched ruleset honours the arguments. -/
theorem fetchRuleset_honours {save : Bool}
    (h : fetchRulesetFromMultipleSources build answers args.sources args.fingerprintsSource.isSome
      args.allowDegraded = .ok (ruleset, save)) : Honours build args ruleset := by
  unfold fetchRulesetFromMultipleSources at h
  extract_lets fetched at h
  split at h
  · -- No source answered, so there is at most the vendored subset.
    simp only [Except.bind_eq_ok, Except.pure_eq_ok, Prod.mk.injEq] at h
    obtain ⟨found, hfound, rfl, -⟩ := h
    rw [vendoredOrErr] at hfound
    cases hallow : args.allowDegraded with
    | false => simp [hallow] at hfound
    | true =>
        rw [hallow, if_pos rfl] at hfound
        exact ⟨.inr ⟨hallow, _, hfound⟩, fun _ hdegraded => by simp [hallow] at hdegraded⟩
  · simp only [Except.bind_eq_ok] at h
    obtain ⟨finished, hfinished, h⟩ := h
    have hmetadata := finishRuleset_metadata hfinished
    split at h
    case isTrue =>
      -- An incomplete default catalog.
      split at h
      case isTrue hallow =>
        simp only [Except.pure_eq_ok, Prod.mk.injEq] at h
        obtain ⟨rfl, -⟩ := h
        refine ⟨.inl (by rw [hmetadata]), fun _ hdegraded => ?_⟩
        rw [hallow] at hdegraded
        cases hdegraded
      case isFalse => exact absurd h Except.throw_ne_ok
    case isFalse hcomplete =>
      simp only [Except.pure_eq_ok, Prod.mk.injEq] at h
      obtain ⟨rfl, -⟩ := h
      refine ⟨.inl (by rw [hmetadata]), fun hsource _ => ?_⟩
      simp only [hsource, Option.isSome_none, Bool.not_false, Bool.true_and, catalogIsComplete,
        Bool.not_eq_true, Bool.not_eq_false', Bool.and_eq_true, beq_iff_eq,
        decide_eq_true_eq] at hcomplete
      exact hcomplete.2

/-- With an empty slot a call honours its arguments. -/
theorem loadRuleset_honours {disk : Disk}
    (h : (loadRuleset build json args answers disk).1 = .ok ruleset) :
    Honours build args ruleset := by
  unfold loadRuleset at h
  extract_lets explicit cachePath cacheKey fetch at h
  have hfetch : fetch.1 = .ok ruleset → Honours build args ruleset := by
    intro hresult
    simp only [fetch] at hresult
    split at hresult
    · cases hresult
    next found hfound =>
      cases hresult
      exact fetchRuleset_honours hfound
    next found hfound =>
      split at hresult
      · cases hresult
      · cases hresult
        exact fetchRuleset_honours hfound
  split at h
  · exact hfetch h
  next cached hcached =>
    obtain ⟨-, -, -, hsource, -⟩ := (loadFromCache_ok_iff json).mp hcached
    cases hfinished : finishRuleset build cached with
    | error _ =>
        rw [hfinished] at h
        cases h
    | ok finished =>
        rw [hfinished] at h
        dsimp only at h
        split at h
        case isTrue hfloor =>
          cases h
          refine ⟨.inl (by rw [finishRuleset_metadata hfinished, hsource]), fun hnone _ => ?_⟩
          simpa [explicit, hnone] using hfloor
        case isFalse => exact hfetch h

/-! ## A whole process -/

/-- The slot has what the first successful call returned, and all successful calls returned it. -/
def FirstWins (build : Build) (state : InitState) : Prop :=
  match state.slot with
  | none => ∀ entry ∈ state.results, entry.2.isOk = false
  | some ruleset =>
      (∃ first, state.results.find? (fun entry => entry.2.isOk) = some (first, .ok ruleset) ∧
        Honours build first ruleset) ∧
      ∀ args other, (args, .ok other) ∈ state.results → other = ruleset

/-- A call returns what is in the slot, or fills the empty slot, or fails and leaves it empty. -/
theorem initRuleset_cases (build : Build) (json : RulesetJson) (state : InitState) (args : InitArgs)
    (answers : Answers) :
    (∃ cached, state.slot = some cached ∧
        initRuleset build json state args answers = (.ok cached, state)) ∨
      (state.slot = none ∧ ∃ ruleset disk, Honours build args ruleset ∧
        initRuleset build json state args answers =
          (.ok ruleset, { state with slot := some ruleset, disk := disk })) ∨
      (state.slot = none ∧ ∃ error disk,
        initRuleset build json state args answers =
          (.error error, { state with disk := disk })) := by
  unfold initRuleset
  cases hslot : state.slot with
  | some cached => exact .inl ⟨cached, rfl, rfl⟩
  | none =>
      match hload : loadRuleset build json args answers state.disk with
      | (.ok ruleset, disk) =>
          exact .inr (.inl ⟨rfl, ruleset, disk, loadRuleset_honours (by rw [hload]), rfl⟩)
      | (.error error, disk) => exact .inr (.inr ⟨rfl, error, disk, rfl⟩)

/-- One event keeps that the first call wins. -/
theorem firstWins_step {state : InitState} (h : FirstWins build state) (event : InitEvent) :
    FirstWins build (initStep build json state event) := by
  cases event with
  | diskChange disk => exact h
  | initRuleset args answers =>
      unfold initStep
      rcases initRuleset_cases build json state args answers with
        ⟨cached, hslot, hcall⟩ | ⟨hslot, ruleset, disk, hhonours, hcall⟩ |
        ⟨hslot, error, disk, hcall⟩
      · simp only [FirstWins, hslot, hcall] at h ⊢
        obtain ⟨⟨first, hfirst, hhonours⟩, hall⟩ := h
        refine ⟨⟨first, by rw [List.find?_append, hfirst]; rfl, hhonours⟩,
          fun args other hmem => ?_⟩
        simp only [List.mem_append, List.mem_singleton, Prod.mk.injEq, Except.ok.injEq] at hmem
        exact hmem.elim (hall args other) And.right
      · simp only [FirstWins, hslot, hcall] at h ⊢
        have hnone : state.results.find? (fun entry => entry.2.isOk) = none :=
          List.find?_eq_none.mpr fun entry hentry => by simp [h entry hentry]
        refine ⟨⟨args, by rw [List.find?_append, hnone]; rfl, hhonours⟩, fun other found hmem => ?_⟩
        simp only [List.mem_append, List.mem_singleton, Prod.mk.injEq, Except.ok.injEq] at hmem
        exact hmem.elim (fun hbefore => by cases h _ hbefore) And.right
      · simp only [FirstWins, hslot, hcall] at h ⊢
        intro entry hentry
        rcases List.mem_append.mp hentry with hbefore | hlast
        · exact h entry hbefore
        · rw [List.mem_singleton.mp hlast]
          rfl

/-- Every successful call of a process returns the ruleset of the first successful call, which
honours the arguments of that call. -/
theorem init_ruleset_first_wins (build : Build) (json : RulesetJson) (disk : Disk)
    (events : List InitEvent) (args : InitArgs) (ruleset : FingerprintRuleset)
    (h : (args, .ok ruleset) ∈
      (events.foldl (initStep build json) { disk := disk }).results) :
    ∃ first, (events.foldl (initStep build json) { disk := disk }).results.find?
        (fun entry => entry.2.isOk) = some (first, .ok ruleset) ∧
      Honours build first ruleset := by
  have hinv : FirstWins build (events.foldl (initStep build json) { disk := disk }) := by
    refine List.foldlRecOn events (initStep build json) (motive := FirstWins build) ?_ ?_
    · exact fun _ hentry => by cases hentry
    · exact fun state hstate event _ => firstWins_step hstate event
  unfold FirstWins at hinv
  split at hinv
  · cases hinv _ h
  · obtain ⟨hfirst, hall⟩ := hinv
    rwa [hall args ruleset h]

section Example

/-- `assets/fingerprints/overlay.json`. -/
def overlayTechnologies : HashMap String Technology :=
  collect
    [("Payload",
      { cats := [1]
        website := "https://payloadcms.com"
        headers := collect [("x-powered-by", "Payload")] }),
      ("Amazon S3",
      { cats := [31]
        website := "https://aws.amazon.com/s3/"
        headers := collect [("server", "^AmazonS3$"), ("x-amz-server-side-encryption", "")]
        implies := ["Amazon Web Services"] })]

/-- A program with its overlay. The vendored subset is left out, since no call below gets it. -/
def smallBuild : Build where
  toLowercase := Text.toAsciiLowercase
  sha256Hex := fun text => if text = "4\na.json" then
    "97cc80b39bc54fa7743b386fe633bd8ae0db89f4f81001e1e5259ebdaa8844a8" else ""
  overlay := .ok overlayTechnologies
  vendoredTechnologies := .ok ∅
  vendoredCategories := .ok ∅
  defaultCacheDir := "/cache"

/-- No network, and one file with an empty JSON object. -/
def offline : Answers where
  loadTime := 0
  fetchTime := 0
  fetchFromUrl := fun _ => .error "offline"
  loadFromPath := fun path => if path = "a.json" then .ok ∅ else .error "not found"
  fetchCategoriesFromUrl := fun _ => .error "offline"
  loadCategoriesFromPath := fun _ => .error "not found"
  getLatestCommitSha := fun _ => none

/-- A call for one file, and a call for a full catalog. -/
def fileThenDefault : List InitEvent :=
  [.initRuleset { fingerprintsSource := some "a.json", allowDegraded := false } offline,
    .initRuleset { fingerprintsSource := none, allowDegraded := false } offline]

/-- The ruleset of the file: the overlay without what matching never reads. -/
def overlayRuleset : FingerprintRuleset where
  technologies := collect
    [("Amazon S3",
      { cats := [31]
        headers := collect [("x-amz-server-side-encryption", ""), ("server", "^AmazonS3$")]
        implies := ["Amazon Web Services"] }),
      ("Payload",
      { cats := [1]
        headers := collect [("x-powered-by", "Payload")] })]
  metadata := { source := "a.json", version := "unknown", lastUpdated := 0 }

/-- The second call gets the ruleset of the first. -/
theorem fileThenDefault_results (json : RulesetJson) :
    (fileThenDefault.foldl (initStep smallBuild json) { disk := fun _ _ _ => none }).results =
      [({ fingerprintsSource := some "a.json", allowDegraded := false }, .ok overlayRuleset),
        ({ fingerprintsSource := none, allowDegraded := false }, .ok overlayRuleset)] := by
  rfl

/-- The second call, too, returns the ruleset of the first. -/
theorem init_ruleset_first_wins_file : ∃ json : RulesetJson, ∃ first,
    (fileThenDefault.foldl (initStep smallBuild json) { disk := fun _ _ _ => none }).results.find?
        (fun entry => entry.2.isOk) = some (first, .ok overlayRuleset) ∧
      Honours smallBuild first overlayRuleset := by
  obtain ⟨json⟩ := rulesetJson_nonempty
  refine ⟨json, init_ruleset_first_wins smallBuild json (fun _ _ _ => none) fileThenDefault
    { fingerprintsSource := none, allowDegraded := false } overlayRuleset ?_⟩
  rw [fileThenDefault_results]
  exact List.mem_of_getElem? (i := 1) rfl

/-- The call for a full catalog gets the ruleset of the file, which has two technologies. -/
theorem init_ruleset_serves_other_arguments :
    ¬ ∀ (build : Build) (json : RulesetJson) (disk : Disk) (events : List InitEvent)
      (args : InitArgs) (ruleset : FingerprintRuleset),
      (args, .ok ruleset) ∈ (events.foldl (initStep build json) { disk := disk }).results →
        Honours build args ruleset := by
  intro h
  obtain ⟨json⟩ := rulesetJson_nonempty
  have hhonours := h smallBuild json (fun _ _ _ => none) fileThenDefault
    { fingerprintsSource := none, allowDegraded := false } overlayRuleset (by
      rw [fileThenDefault_results]
      exact List.mem_of_getElem? (i := 1) rfl)
  have hfloor : 1000 ≤ 2 := hhonours.2 rfl rfl
  omega

end Example

end DomainStatus.Fingerprint
