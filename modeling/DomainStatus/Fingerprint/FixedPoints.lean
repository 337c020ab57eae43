import DomainStatus.Fingerprint.Versions
import DomainStatus.Lib.FixedPoint

/-!
# Implications and requirements as fixed points

Whether the bounded rounds of `expandImplies` reach the closure under implications, and those of
`applyTechnologyRequires` the greatest set of technologies that support each other. Read
`expand_implies_closure_iff` and `requires_greatest_iff` first: they do exactly when no chain of
implications, or of dropped requirements, is longer than the number of rounds.
-/

namespace DomainStatus.Fingerprint

variable (ruleset : FingerprintRuleset)

/-! ## Implications -/

/-- One technology lists the other, which the ruleset has too, under `implies`. -/
def Implies (techName implied : String) : Prop :=
  implied ∈ ruleset.technologies ∧ ∃ tech, ruleset.technologies.lookup techName = some tech ∧
    ∃ reference ∈ tech.implies, (parseTechnologyReference reference).1 = implied

/-- The map after implications were followed: its names are the closure of those before, entries
that were there keep what they said, and the others are marked as implied. -/
structure Expanded (detected expanded : HashMap String TechInfo) : Prop where
  least : IsLeast (Rounds.closedSets (Implies ruleset) (names detected))
    {name | name ∈ names expanded}
  kept : ∀ name info, detected.lookup name = some info →
    ∃ after, expanded.lookup name = some after ∧ after.isImplied = info.isImplied ∧
      after.source = info.source ∧
        ∀ version, info.version = some version → after.version = some version
  added : ∀ name info, name ∉ detected → expanded.lookup name = some info →
    info.isImplied = true ∧ info.source = .implied

section Implies

variable {ruleset}

/-- The implied names that the ruleset knows are those the relation gives. -/
theorem mem_impliedBy_iff {techName implied : String} :
    implied ∈ (impliedBy ruleset techName).map Prod.fst ∧ implied ∈ ruleset.technologies ↔
      Implies ruleset techName implied := by
  unfold Implies impliedBy
  cases ruleset.technologies.lookup techName with
  | none => simp
  | some tech => simp [parseTechnologyReference, and_comm]

variable (ruleset) in
/-- One round adds what some known name implies. -/
theorem mem_impliesStep_iff (known : Finset String) (name : String) :
    name ∈ impliesStep ruleset known ↔
      name ∈ known ∨ ∃ first ∈ known, Implies ruleset first name := by
  simp only [impliesStep, impliedNames, Finset.mem_union, Finset.mem_filter, Finset.mem_biUnion,
    List.mem_toFinset, ← mem_impliedBy_iff]
  tauto

/-- A technology that was detected keeps its source, and its version if it had one. -/
theorem lookup_expandImplies_kept (order : HashOrder) {detected : HashMap String TechInfo}
    {name : String} {info : TechInfo} (hinfo : detected.lookup name = some info) :
    ∃ after, (expandImplies ruleset order detected).lookup name = some after ∧
      after.isImplied = info.isImplied ∧ after.source = info.source ∧
        ∀ version, info.version = some version → after.version = some version := by
  have hkept : OriginsKept detected (expandImplies ruleset order detected) :=
    originsKept_expandImplies order detected
  have hmem : name ∈ names (expandImplies ruleset order detected) :=
    hkept.subset (mem_names.mpr (mem_of_lookup hinfo))
  obtain ⟨after, hafter⟩ := Option.isSome_iff_exists.mp
    (AList.lookup_isSome.mpr (mem_names.mp hmem))
  have horigin := hkept.origin hafter
  rw [hinfo] at horigin
  refine ⟨after, hafter, congrArg Prod.fst horigin, congrArg Prod.snd horigin, ?_⟩
  intro version hversion
  have hknown : versionOf detected name = some version := by
    rw [versionOf, hinfo, Option.bind_some, hversion]
  have hlater : versionOf (expandImplies ruleset order detected) name = some version :=
    versionOf_loop_of_known order maxImpliesDepth hknown
  rwa [versionOf, hafter, Option.bind_some] at hlater

/-- A technology that is added has the source of an implication. -/
theorem lookup_expandImplies_added (order : HashOrder) {detected : HashMap String TechInfo}
    {name : String} {info : TechInfo} (hname : name ∉ detected)
    (hinfo : (expandImplies ruleset order detected).lookup name = some info) :
    info.isImplied = true ∧ info.source = .implied := by
  have hkept : OriginsKept detected (expandImplies ruleset order detected) :=
    originsKept_expandImplies order detected
  have horigin := hkept.origin hinfo
  rw [AList.lookup_eq_none.mpr hname] at horigin
  exact ⟨congrArg Prod.fst horigin, congrArg Prod.snd horigin⟩

end Implies

/-- Implications are followed to the closure exactly when every technology that they lead to is led
to by at most `maxImpliesDepth` of them. -/
theorem expand_implies_closure_iff (order : HashOrder) (detected : HashMap String TechInfo) :
    Expanded ruleset detected (expandImplies ruleset order detected) ↔
      ∀ name, (∃ first ∈ names detected, Relation.ReflTransGen (Implies ruleset) first name) →
        ∃ first ∈ names detected,
          Rounds.ReachedIn (Implies ruleset) maxImpliesDepth first name := by
  have hleast := Rounds.isLeast_iterate_iff (names detected) (mem_impliesStep_iff ruleset)
    maxImpliesDepth
  constructor
  · intro hexpanded
    refine hleast.mp ?_
    have h := hexpanded.least
    rwa [names_expandImplies] at h
  · intro hshort
    refine ⟨?_, fun name info => lookup_expandImplies_kept order,
      fun name info => lookup_expandImplies_added order⟩
    rw [names_expandImplies]
    exact hleast.mpr hshort

/-- Technologies `0`, `1`, … of which each does something with the next. -/
def chainOf (length : ℕ) (link : String → Technology) : FingerprintRuleset where
  technologies := ((List.range length).map fun number =>
    (⟨toString number, link (toString (number + 1))⟩ : Sigma fun _ : String => Technology)).toAList

/-- Eleven implications in a row. -/
def impliesChain : FingerprintRuleset :=
  chainOf 12 fun next => { implies := [next] }

/-- The first technology of the chain was detected. -/
def firstDetected : HashMap String TechInfo :=
  [(⟨"0", { version := none, isImplied := false, source := .html }⟩ :
    Sigma fun _ : String => TechInfo)].toAList

/-- The last technology of the chain is not found. -/
theorem expand_implies_stops_early :
    ¬ ∀ (ruleset : FingerprintRuleset) (order : HashOrder) (detected : HashMap String TechInfo),
      Expanded ruleset detected (expandImplies ruleset order detected) := by
  intro h
  have hexpanded := h impliesChain (frontOrder "0") firstDetected
  obtain ⟨htenth, hlast⟩ :
      "10" ∈ names (expandImplies impliesChain (frontOrder "0") firstDetected) ∧
        "11" ∉ names (expandImplies impliesChain (frontOrder "0") firstDetected) := by
    decide +kernel
  refine hlast (hexpanded.least.1.2 "10" htenth "11" ⟨by decide +kernel, ?_⟩)
  exact ⟨{ implies := ["11"] }, by rfl, "11", by decide, by decide +kernel⟩

/-! ## Requirements -/

/-- Every member has what it requires among the members: all the technologies that it lists, and
another one of a category that it lists when it lists one. -/
def SelfSupporting (members : Finset String) : Prop :=
  ∀ name ∈ members, ∀ tech, ruleset.technologies.lookup name = some tech →
    (∀ reference ∈ tech.requires, (parseTechnologyReference reference).1 ∈ members) ∧
      (tech.requiresCategory ≠ [] → ∃ other ∈ members, other ≠ name ∧
        ∃ otherTech, ruleset.technologies.lookup other = some otherTech ∧
          ∃ cat ∈ otherTech.cats, cat ∈ tech.requiresCategory)

/-- A technology cannot stay for a reason of so many stages: something that it requires is not
detected or cannot stay itself, or nothing of the categories that it requires can stay. -/
inductive LacksRequirement (detected : Finset String) : ℕ → String → Prop
  | missing {stages name tech reference} :
      ruleset.technologies.lookup name = some tech → reference ∈ tech.requires →
      (parseTechnologyReference reference).1 ∉ detected →
      LacksRequirement detected (stages + 1) name
  | dropped {stages name tech reference} :
      ruleset.technologies.lookup name = some tech → reference ∈ tech.requires →
      LacksRequirement detected stages (parseTechnologyReference reference).1 →
      LacksRequirement detected (stages + 1) name
  | category {stages name tech} :
      ruleset.technologies.lookup name = some tech → tech.requiresCategory ≠ [] →
      (∀ other ∈ detected, other ≠ name → providesCategory ruleset tech other = true →
        LacksRequirement detected stages other) →
      LacksRequirement detected (stages + 1) name

section Requires

variable {ruleset} {detected : Finset String}

/-- When the requirements of a technology are met. -/
theorem technologyRequiresSatisfied_iff {members : Finset String} {name : String} :
    technologyRequiresSatisfied ruleset members name = true ↔
      ∀ tech, ruleset.technologies.lookup name = some tech →
        (∀ reference ∈ tech.requires, (parseTechnologyReference reference).1 ∈ members) ∧
          (tech.requiresCategory ≠ [] →
            ∃ other ∈ members, other ≠ name ∧ providesCategory ruleset tech other = true) := by
  unfold technologyRequiresSatisfied
  cases ruleset.technologies.lookup name with
  | none => simp
  | some tech =>
      simp only [Option.all_some, Bool.and_eq_true, List.all_eq_true, decide_eq_true_eq,
        Bool.or_eq_true, List.isEmpty_iff, Option.some.injEq, forall_eq']
      rw [or_iff_not_imp_left]

/-- When a technology has a category that another one needs. -/
theorem providesCategory_iff {tech : Technology} {other : String} :
    providesCategory ruleset tech other = true ↔
      ∃ otherTech, ruleset.technologies.lookup other = some otherTech ∧
        ∃ cat ∈ otherTech.cats, cat ∈ tech.requiresCategory := by
  simp [providesCategory, Option.any_eq_true]

/-- A set supports itself if the requirements of all members are met in it. -/
theorem selfSupporting_iff {members : Finset String} :
    SelfSupporting ruleset members ↔
      ∀ name ∈ members, technologyRequiresSatisfied ruleset members name = true := by
  simp only [SelfSupporting, technologyRequiresSatisfied_iff, providesCategory_iff]

/-- More detected technologies do not take away what one requires. -/
theorem technologyRequiresSatisfied_mono (part whole : Finset String) (name : String)
    (hsub : part ⊆ whole) (hpart : technologyRequiresSatisfied ruleset part name = true) :
    technologyRequiresSatisfied ruleset whole name = true := by
  rw [technologyRequiresSatisfied_iff] at hpart ⊢
  intro tech htech
  obtain ⟨hrequires, hcategory⟩ := hpart tech htech
  refine ⟨fun reference hreference => hsub (hrequires reference hreference), fun hne => ?_⟩
  obtain ⟨other, hother, hprovides⟩ := hcategory hne
  exact ⟨other, hsub hother, hprovides⟩

/-- The reasons for which technologies cannot stay are those of the rounds. -/
theorem stages_lacksRequirement :
    Rounds.Stages (fun members name => technologyRequiresSatisfied ruleset members name = true)
      detected (LacksRequirement ruleset detected) where
  zero name := nofun
  succ stages left hleft name := by
    rw [technologyRequiresSatisfied_iff]
    constructor
    · intro hlacks hsatisfied
      cases hlacks with
      | missing htech hreference hmissing =>
          have hmem := (hsatisfied _ htech).1 _ hreference
          exact hmissing ((hleft _).mp hmem).1
      | dropped htech hreference hdropped =>
          have hmem := (hsatisfied _ htech).1 _ hreference
          exact ((hleft _).mp hmem).2 hdropped
      | category htech hne hothers =>
          obtain ⟨other, hother, hself, hprovides⟩ := (hsatisfied _ htech).2 hne
          obtain ⟨hdetected, hstays⟩ := (hleft other).mp hother
          exact hstays (hothers other hdetected hself hprovides)
    · intro hunsatisfied
      push Not at hunsatisfied
      obtain ⟨tech, htech, hrequires⟩ := hunsatisfied
      by_cases hall : ∀ reference ∈ tech.requires, (parseTechnologyReference reference).1 ∈ left
      · obtain ⟨hne, hothers⟩ := hrequires hall
        refine .category htech hne fun other hother hself hprovides => ?_
        by_contra hstays
        exact hothers other ((hleft other).mpr ⟨hother, hstays⟩) hself hprovides
      · push Not at hall
        obtain ⟨reference, hreference, hmissing⟩ := hall
        by_cases hdetected : (parseTechnologyReference reference).1 ∈ detected
        · refine .dropped htech hreference ?_
          by_contra hstays
          exact hmissing ((hleft _).mpr ⟨hdetected, hstays⟩)
        · exact .missing htech hreference hdetected

end Requires

/-- The requirements leave the greatest set of technologies that support each other exactly when
every technology that cannot stay has a reason of at most `maxRequiresDepth` stages. -/
theorem requires_greatest_iff (detected : Finset String) :
    IsGreatest {members | members ⊆ detected ∧ SelfSupporting ruleset members}
        (applyTechnologyRequires ruleset detected) ↔
      ∀ name ∈ detected, (∃ stages, LacksRequirement ruleset detected stages name) →
        LacksRequirement ruleset detected maxRequiresDepth name := by
  have hparts : {members | members ⊆ detected ∧ SelfSupporting ruleset members} =
      Rounds.supportedParts
        (fun members name => technologyRequiresSatisfied ruleset members name = true) detected := by
    simp only [selfSupporting_iff]
    rfl
  rw [hparts, applyTechnologyRequires_eq]
  exact Rounds.isGreatest_iterate_iff technologyRequiresSatisfied_mono stages_lacksRequirement
    maxRequiresDepth

/-- Twelve technologies of which each requires the next. -/
def requiresChain : FingerprintRuleset :=
  chainOf 12 fun next => { requires := [next] }

/-- The names of the chain. -/
def chainNames : Finset String :=
  (requiresChain.technologies.keys).toFinset

/-- The second technology is kept although the third one, which it requires, is dropped. -/
theorem requires_stops_early :
    ¬ ∀ (ruleset : FingerprintRuleset) (detected : Finset String),
      IsGreatest {members | members ⊆ detected ∧ SelfSupporting ruleset members}
        (applyTechnologyRequires ruleset detected) := by
  intro h
  have hgreatest := h requiresChain chainNames
  obtain ⟨hkept, hdropped⟩ : "1" ∈ applyTechnologyRequires requiresChain chainNames ∧
      "2" ∉ applyTechnologyRequires requiresChain chainNames := by
    decide +kernel
  have hrequires := (hgreatest.1.2 "1" hkept { requires := ["2"] } rfl).1 "2" (by decide)
  exact hdropped hrequires

end DomainStatus.Fingerprint
