import DomainStatus.Fingerprint.Detection
import Mathlib.Data.Finset.Union

/-!
# Detection on sets of names

Which technologies detection reports, and which of them as implied, depends on names alone. Read
`detectTechnologies_names` and `supplementTechnologies_names` first: they give both results as
functions of the sets of observed names, whatever the order in which the maps are iterated.
-/

namespace DomainStatus.Fingerprint

variable (ruleset : FingerprintRuleset)

/-- The names in a map of detected technologies. -/
def names (detected : HashMap String TechInfo) : Finset String :=
  detected.keys.toFinset

/-- The names that a list of signals shows. -/
def observedNames (observed : List MatchResult) : Finset String :=
  (observed.map MatchResult.techName).toFinset

/-- The technologies of the ruleset that one of the names implies. -/
def impliedNames (known : Finset String) : Finset String :=
  (known.biUnion fun name => ((impliedBy ruleset name).map Prod.fst).toFinset).filter
    (· ∈ ruleset.technologies)

/-- One round of implications. -/
def impliesStep (known : Finset String) : Finset String :=
  known ∪ impliedNames ruleset known

/-- What `expandImplies` does to the names. -/
def expandNames (known : Finset String) : Finset String :=
  (impliesStep ruleset)^[maxImpliesDepth] known

/-- The names that `finalizeDetections` keeps. -/
def keptNames (detected : Finset String) : Finset String :=
  (applyTechnologyRequires ruleset (applyTechnologyExclusions ruleset detected)).filter
    fun name => ¬ isDenylistedTechnology ruleset name

/-- The names of a detection, each with the flag that says whether it is only implied. -/
def namesWithFlags (techs : List DetectedTechnology) : Finset (String × Bool) :=
  (techs.map fun tech => (tech.name, tech.isImplied)).toFinset

/-- The observed names are in the map, and every other name in it is implied. -/
structure FlagsExact (observed : Finset String) (detected : HashMap String TechInfo) : Prop where
  subset : observed ⊆ names detected
  flag : ∀ {name info}, detected.lookup name = some info →
    info.isImplied = decide (name ∉ observed)

section Maps

variable {ruleset} {detected : HashMap String TechInfo} {observed : Finset String}

@[simp] theorem mem_names {name : String} : name ∈ names detected ↔ name ∈ detected := by
  simp [names, AList.mem_keys]

@[simp] theorem names_insert {name : String} {info : TechInfo} :
    names (detected.insert name info) = insert name (names detected) := by
  ext other
  simp

/-- What is found is detected. -/
theorem mem_of_lookup {name : String} {info : TechInfo}
    (h : detected.lookup name = some info) : name ∈ detected :=
  AList.lookup_isSome.mp (by simp [h])

/-- The flags stay exact when an entry is written with the flag that its name calls for. -/
theorem FlagsExact.write (hflags : FlagsExact observed detected) {name : String} {info : TechInfo}
    (hinfo : info.isImplied = decide (name ∉ observed)) :
    FlagsExact observed (detected.insert name info) where
  subset := hflags.subset.trans (by rw [names_insert]; exact Finset.subset_insert _ _)
  flag {other found} hlookup := by
    rcases lookup_insert_inv hlookup with ⟨rfl, rfl⟩ | ⟨-, hbefore⟩
    · exact hinfo
    · exact hflags.flag hbefore

/-- An observation clears the flag of its name and of no other. -/
theorem FlagsExact.observe (hflags : FlagsExact observed detected) {name : String}
    {info : TechInfo} (hinfo : info.isImplied = false) :
    FlagsExact (insert name observed) (detected.insert name info) where
  subset := by
    rw [names_insert]
    exact Finset.insert_subset_insert name hflags.subset
  flag {other found} hlookup := by
    rcases lookup_insert_inv hlookup with ⟨rfl, rfl⟩ | ⟨hother, hbefore⟩
    · simp [hinfo]
    · simpa [hother] using hflags.flag hbefore

end Maps

section Merge

variable {detected : HashMap String TechInfo} {observed : Finset String}

/-- A signal inserts its technology, which is not implied. -/
theorem mergeObserved_eq_insert (detected : HashMap String TechInfo) (result : MatchResult) :
    ∃ info : TechInfo, info.isImplied = false ∧
      mergeObserved detected result = detected.insert result.techName info := by
  unfold mergeObserved
  cases detected.lookup result.techName with
  | none => exact ⟨_, rfl, rfl⟩
  | some existing => exact ⟨_, rfl, rfl⟩

/-- The names after some signals. -/
theorem names_foldl_mergeObserved (signals : List MatchResult)
    (detected : HashMap String TechInfo) :
    names (signals.foldl mergeObserved detected) = names detected ∪ observedNames signals := by
  induction signals generalizing detected with
  | nil => simp [observedNames]
  | cons result rest ih =>
      obtain ⟨info, -, hmerge⟩ := mergeObserved_eq_insert detected result
      rw [List.foldl_cons, ih, hmerge, names_insert]
      ext name
      simp only [observedNames, List.map_cons, List.toFinset_cons, Finset.mem_union,
        Finset.mem_insert]
      tauto

/-- Signals keep that exactly the observed technologies are not implied. -/
theorem flags_foldl_mergeObserved (signals : List MatchResult)
    (hflags : FlagsExact observed detected) :
    FlagsExact (observed ∪ observedNames signals) (signals.foldl mergeObserved detected) := by
  induction signals generalizing detected observed with
  | nil => simpa [observedNames] using hflags
  | cons result rest ih =>
      obtain ⟨info, himplied, hmerge⟩ := mergeObserved_eq_insert detected result
      have hrest := ih (@FlagsExact.observe detected observed hflags result.techName info himplied)
      rw [List.foldl_cons, hmerge]
      simpa [observedNames, Finset.insert_union, Finset.union_insert] using hrest

end Merge

section Implies

variable {ruleset} {detected : HashMap String TechInfo} {observed : Finset String}

/-- The names after one reference. -/
theorem names_addImplied (state : HashMap String TechInfo × Bool)
    (implied : String × Option String) :
    names (addImplied ruleset state implied).1 =
      names state.1 ∪ ({implied.1} : Finset String).filter (· ∈ ruleset.technologies) := by
  unfold addImplied
  by_cases hruleset : implied.1 ∈ ruleset.technologies
  · cases hlookup : state.1.lookup implied.1 <;>
      simp [hruleset, hlookup, Finset.filter_singleton]
  · simp [hruleset, Finset.filter_singleton]

/-- A reference that adds nothing was known or is no technology. -/
theorem addImplied_added {state : HashMap String TechInfo × Bool} {implied : String × Option String}
    (hadded : (addImplied ruleset state implied).2 = false) :
    state.2 = false ∧ (implied.1 ∈ ruleset.technologies → implied.1 ∈ state.1) := by
  unfold addImplied at hadded
  by_cases hruleset : implied.1 ∈ ruleset.technologies
  · cases hlookup : state.1.lookup implied.1 with
    | none => simp [hruleset, hlookup] at hadded
    | some existing =>
        exact ⟨by simpa [hruleset, hlookup] using hadded, fun _ => mem_of_lookup hlookup⟩
  · exact ⟨by simpa [hruleset] using hadded, fun h => absurd h hruleset⟩

/-- What is added is implied. -/
theorem flags_addImplied {state : HashMap String TechInfo × Bool} (implied : String × Option String)
    (hflags : FlagsExact observed state.1) :
    FlagsExact observed (addImplied ruleset state implied).1 := by
  unfold addImplied
  by_cases hruleset : implied.1 ∈ ruleset.technologies
  · cases hlookup : state.1.lookup implied.1 with
    | none =>
        -- Observed names are in the map, so a new name was not observed.
        have hnew : implied.1 ∉ observed := fun h =>
          AList.lookup_eq_none.mp hlookup (mem_names.mp (hflags.subset h))
        simpa [hruleset, hlookup] using hflags.write (by simp [hnew])
    | some existing =>
        have hflag := hflags.flag hlookup
        simpa [hruleset, hlookup] using hflags.write (by simpa using hflag)
  · simpa [hruleset] using hflags

/-- The names after some references. -/
theorem names_foldl_addImplied (references : List (String × Option String))
    (state : HashMap String TechInfo × Bool) :
    names (references.foldl (addImplied ruleset) state).1 =
      names state.1 ∪ (references.map Prod.fst).toFinset.filter (· ∈ ruleset.technologies) := by
  induction references generalizing state with
  | nil => simp
  | cons implied rest ih =>
      rw [List.foldl_cons, ih, names_addImplied, List.map_cons, List.toFinset_cons,
        Finset.insert_eq, Finset.filter_union, Finset.union_assoc]

/-- References that add nothing change no names. -/
theorem foldl_addImplied_added {references : List (String × Option String)}
    {state : HashMap String TechInfo × Bool}
    (hadded : (references.foldl (addImplied ruleset) state).2 = false) :
    state.2 = false ∧
      names (references.foldl (addImplied ruleset) state).1 = names state.1 := by
  induction references generalizing state with
  | nil => exact ⟨hadded, rfl⟩
  | cons implied rest ih =>
      obtain ⟨hstate, hrest⟩ := ih hadded
      obtain ⟨hfalse, hknown⟩ := addImplied_added hstate
      refine ⟨hfalse, ?_⟩
      rw [List.foldl_cons, hrest, names_addImplied, Finset.union_eq_left]
      intro name hname
      obtain ⟨rfl, hruleset⟩ : name = implied.1 ∧ name ∈ ruleset.technologies := by
        simpa using hname
      exact mem_names.mpr (hknown hruleset)

/-- References keep that exactly the observed technologies are not implied. -/
theorem flags_foldl_addImplied (references : List (String × Option String))
    {state : HashMap String TechInfo × Bool} (hflags : FlagsExact observed state.1) :
    FlagsExact observed (references.foldl (addImplied ruleset) state).1 := by
  induction references generalizing state with
  | nil => exact hflags
  | cons implied rest ih => exact ih (flags_addImplied implied hflags)

/-- A round adds the technologies of the ruleset that the known names imply. -/
theorem names_impliesRound (order : HashOrder) (detected : HashMap String TechInfo) :
    names (impliesRound ruleset order detected).1 = impliesStep ruleset (names detected) := by
  rw [impliesRound, names_foldl_addImplied, impliesStep, impliedNames]
  congr 2
  ext name
  have hkeys : ∀ known, known ∈ order.keys detected ↔ known ∈ detected := fun known => by
    rw [(order.perm detected).mem_iff, AList.mem_keys]
  simp only [List.mem_toFinset, List.mem_map, List.mem_flatMap, Finset.mem_biUnion, mem_names,
    hkeys]
  tauto

/-- A round that adds nothing has reached a fixed point. -/
theorem impliesRound_stable {order : HashOrder} {detected : HashMap String TechInfo}
    (hstop : (impliesRound ruleset order detected).2 = false) :
    impliesStep ruleset (names detected) = names detected := by
  rw [← names_impliesRound order]
  exact (foldl_addImplied_added hstop).2

/-- `expandImplies` adds names as `expandNames` says. -/
theorem names_expandImplies (order : HashOrder) (detected : HashMap String TechInfo) :
    names (expandImplies ruleset order detected) = expandNames ruleset (names detected) :=
  Rounds.view_loop (impliesRound ruleset order) names (names_impliesRound order)
    (fun _ => impliesRound_stable) maxImpliesDepth detected

/-- The rounds keep that exactly the observed technologies are not implied. -/
theorem flags_expandImplies (order : HashOrder) (hflags : FlagsExact observed detected) :
    FlagsExact observed (expandImplies ruleset order detected) :=
  Rounds.loop_induction
    (fun _ hstate => flags_foldl_addImplied _ hstate) maxImpliesDepth hflags

end Implies

section Finalize

variable {ruleset} {detected : HashMap String TechInfo} {observed : Finset String}

/-- The rounds that remove technologies are those of a filter. -/
theorem applyTechnologyRequires_eq (detected : Finset String) :
    applyTechnologyRequires ruleset detected =
      (Rounds.filterStep fun remaining name =>
        technologyRequiresSatisfied ruleset remaining name = true)^[maxRequiresDepth] detected := by
  refine Rounds.view_loop (requiresRound ruleset) id (fun _ => rfl) ?_ maxRequiresDepth detected
  intro remaining hstop
  simp only [requiresRound, decide_eq_false_iff_not, not_exists, not_and, not_not] at hstop
  exact Finset.filter_true_of_mem hstop

/-- Only detected technologies are kept. -/
theorem keptNames_subset (detected : Finset String) : keptNames ruleset detected ⊆ detected :=
  calc keptNames ruleset detected
      ⊆ applyTechnologyRequires ruleset (applyTechnologyExclusions ruleset detected) :=
        Finset.filter_subset _ _
    _ ⊆ applyTechnologyExclusions ruleset detected := by
        rw [applyTechnologyRequires_eq]
        exact Rounds.iterate_filterStep_subset _ _
    _ ⊆ detected := Finset.filter_subset _ _

/-- What is kept was detected. -/
theorem exists_lookup_of_kept {name : String} (hkept : name ∈ keptNames ruleset (names detected)) :
    ∃ info, detected.lookup name = some info :=
  Option.isSome_iff_exists.mp
    (AList.lookup_isSome.mpr (mem_names.mp (keptNames_subset _ hkept)))

/-- The entries of the finished detection are those of the kept names. -/
theorem mem_finalizeDetections {order : HashOrder} {tech : DetectedTechnology} :
    tech ∈ finalizeDetections ruleset order detected ↔
      ∃ name ∈ keptNames ruleset (names detected), ∃ info,
        detected.lookup name = some info ∧
          tech = { name := name, version := info.version,
                   category := getTechnologyCategory ruleset name,
                   isImplied := info.isImplied, detectionSource := some info.source.asStr } := by
  have hkeys : ∀ known, known ∈ order.keys detected ↔ known ∈ detected := fun known => by
    rw [(order.perm detected).mem_iff, AList.mem_keys]
  simp only [finalizeDetections, List.mem_filterMap, List.mem_filter, hkeys, decide_eq_true_eq,
    Option.bind_eq_some_iff, Option.ite_none_left_eq_some, Option.some.injEq, keptNames,
    Finset.mem_filter, names]
  constructor
  · intro h
    obtain ⟨name, ⟨-, hkept⟩, info, hlookup, hdeny, rfl⟩ := h
    exact ⟨name, ⟨hkept, hdeny⟩, info, hlookup, rfl⟩
  · intro h
    obtain ⟨name, ⟨hkept, hdeny⟩, info, hlookup, rfl⟩ := h
    exact ⟨name, ⟨mem_of_lookup hlookup, hkept⟩, info, hlookup, hdeny, rfl⟩

/-- A finished detection reports the kept names, and those not observed as implied. -/
theorem namesWithFlags_finalizeDetections (order : HashOrder)
    (hflags : FlagsExact observed detected) :
    namesWithFlags (finalizeDetections ruleset order detected) =
      (keptNames ruleset (names detected)).image fun name => (name, decide (name ∉ observed)) := by
  ext ⟨name, flag⟩
  simp only [namesWithFlags, List.mem_toFinset, List.mem_map, mem_finalizeDetections,
    Finset.mem_image, Prod.mk.injEq]
  constructor
  · intro h
    obtain ⟨_, ⟨name, hkept, info, hlookup, rfl⟩, rfl, rfl⟩ := h
    exact ⟨name, hkept, rfl, (hflags.flag hlookup).symm⟩
  · intro h
    obtain ⟨name, hkept, rfl, rfl⟩ := h
    obtain ⟨info, hlookup⟩ := exists_lookup_of_kept hkept
    exact ⟨_, ⟨name, hkept, info, hlookup, rfl⟩, rfl, hflags.flag hlookup⟩

end Finalize

section Restore

variable {ruleset} {detected : HashMap String TechInfo} {observed : Finset String}

/-- The names of stored technologies. -/
theorem names_foldl_restoreDetected (techs : List DetectedTechnology)
    (detected : HashMap String TechInfo) :
    names (techs.foldl restoreDetected detected) =
      names detected ∪ (techs.map DetectedTechnology.name).toFinset := by
  induction techs generalizing detected with
  | nil => simp
  | cons tech rest ih =>
      rw [List.foldl_cons, ih, restoreDetected, names_insert, List.map_cons, List.toFinset_cons,
        Finset.insert_union, Finset.union_insert]

/-- A stored technology keeps its flag. -/
theorem FlagsExact.restore (hflags : FlagsExact (observed ∩ names detected) detected)
    {tech : DetectedTechnology} (htech : tech.isImplied = decide (tech.name ∉ observed)) :
    FlagsExact (observed ∩ names (restoreDetected detected tech))
      (restoreDetected detected tech) where
  subset := Finset.inter_subset_right
  flag {other found} hlookup := by
    have hmem : other ∈ names (restoreDetected detected tech) :=
      mem_names.mpr (mem_of_lookup hlookup)
    rw [restoreDetected] at hlookup
    rcases lookup_insert_inv hlookup with ⟨rfl, rfl⟩ | ⟨-, hbefore⟩
    · simp [htech, hmem]
    · simpa [hmem, mem_of_lookup hbefore] using hflags.flag hbefore

/-- Stored technologies keep their flags. -/
theorem flags_foldl_restoreDetected {techs : List DetectedTechnology}
    (htechs : ∀ tech ∈ techs, tech.isImplied = decide (tech.name ∉ observed))
    (hflags : FlagsExact (observed ∩ names detected) detected) :
    FlagsExact (observed ∩ names (techs.foldl restoreDetected detected))
      (techs.foldl restoreDetected detected) := by
  induction techs generalizing detected with
  | nil => exact hflags
  | cons tech rest ih =>
      exact ih (fun other hother => htechs other (List.mem_cons_of_mem _ hother))
        (hflags.restore (htechs tech (List.mem_cons_self ..)))

@[simp] theorem names_empty : names ∅ = ∅ := rfl

/-- Without technologies all flags are right. -/
theorem flags_empty : FlagsExact ∅ ∅ where
  subset := Finset.empty_subset _
  flag h := by simp at h

/-- The map restored from a finished detection holds the kept names with exact flags. -/
theorem detectedToMap_finalizeDetections (order : HashOrder)
    (hflags : FlagsExact observed detected) :
    names (detectedToMap (finalizeDetections ruleset order detected)) =
        keptNames ruleset (names detected) ∧
      FlagsExact (observed ∩ keptNames ruleset (names detected))
        (detectedToMap (finalizeDetections ruleset order detected)) := by
  have hnames : names (detectedToMap (finalizeDetections ruleset order detected)) =
      keptNames ruleset (names detected) := by
    rw [detectedToMap, names_foldl_restoreDetected, names_empty, Finset.empty_union]
    ext name
    simp only [List.mem_toFinset, List.mem_map, mem_finalizeDetections]
    constructor
    · intro h
      obtain ⟨_, ⟨name, hkept, info, -, rfl⟩, rfl⟩ := h
      exact hkept
    · intro hkept
      obtain ⟨info, hlookup⟩ := exists_lookup_of_kept hkept
      exact ⟨_, ⟨name, hkept, info, hlookup, rfl⟩, rfl⟩
  refine ⟨hnames, ?_⟩
  rw [← hnames]
  refine flags_foldl_restoreDetected ?_ (by simpa using flags_empty)
  intro tech htech
  obtain ⟨name, -, info, hlookup, rfl⟩ := mem_finalizeDetections.mp htech
  exact hflags.flag hlookup

end Restore

section Results

/-- The map after the signals were merged into an empty one and expanded. -/
theorem expanded_signals (order : HashOrder) (signals : List MatchResult) :
    names (expandImplies ruleset order (signals.foldl mergeObserved ∅)) =
        expandNames ruleset (observedNames signals) ∧
      FlagsExact (observedNames signals)
        (expandImplies ruleset order (signals.foldl mergeObserved ∅)) := by
  constructor
  · rw [names_expandImplies, names_foldl_mergeObserved, names_empty, Finset.empty_union]
  · simpa using flags_expandImplies order (flags_foldl_mergeObserved signals flags_empty)

/-- Detection reports the names that are kept of all that the signals show and imply. -/
theorem detectTechnologies_names (order : HashOrder) (signals : List MatchResult) :
    namesWithFlags (detectTechnologies ruleset order signals) =
      (keptNames ruleset (expandNames ruleset (observedNames signals))).image
        fun name => (name, decide (name ∉ observedNames signals)) := by
  obtain ⟨hnames, hflags⟩ := expanded_signals ruleset order signals
  rw [detectTechnologies, namesWithFlags_finalizeDetections order hflags, hnames]

/-- A supplement starts from the names that the first detection kept, and no longer knows the
dropped ones as observed. -/
theorem supplementTechnologies_names (order order' : HashOrder)
    {signals later : List MatchResult} (hlater : later ≠ []) :
    let kept := keptNames ruleset (expandNames ruleset (observedNames signals))
    namesWithFlags
        (supplementTechnologies ruleset order' (detectTechnologies ruleset order signals) later) =
      (keptNames ruleset (expandNames ruleset (kept ∪ observedNames later))).image
        fun name => (name, decide (name ∉ observedNames signals ∩ kept ∪ observedNames later)) := by
  intro kept
  obtain ⟨hnames, hflags⟩ := expanded_signals ruleset order signals
  obtain ⟨hrestored, hrestoredFlags⟩ :=
    @detectedToMap_finalizeDetections ruleset _ _ order hflags
  rw [hnames] at hrestored hrestoredFlags
  have hexpanded := @flags_expandImplies ruleset _ _ order'
    (flags_foldl_mergeObserved later hrestoredFlags)
  rw [supplementTechnologies, if_neg hlater, detectTechnologies,
    namesWithFlags_finalizeDetections order' hexpanded, names_expandImplies,
    names_foldl_mergeObserved, hrestored]

end Results

end DomainStatus.Fingerprint
