import DomainStatus.Fingerprint.DetectedNames

/-!
# Detection in two passes

The signals of DNS, the certificate and the fetched scripts come after the page's own and are merged
into a detection that is already finished. A detection of all signals at once can differ from it,
since the first pass has dropped technologies that the later signals bear on. Read
`supplement_agrees_with_batch` first: the two agree when what was dropped has no further effect.
-/

namespace DomainStatus.Fingerprint

variable (ruleset : FingerprintRuleset) (first later : Finset String)

/-- The names before the end of a detection of all signals at once. -/
def batchNames : Finset String :=
  expandNames ruleset (first ∪ later)

/-- The names before the end of the second pass. -/
def secondNames : Finset String :=
  expandNames ruleset (keptNames ruleset (expandNames ruleset first) ∪ later)

/-- The names that survive the exclusions and the requirements. -/
def supportedNames (detected : Finset String) : Finset String :=
  applyTechnologyRequires ruleset (applyTechnologyExclusions ruleset detected)

/-- The technology names the other one under `requires`, or requires a category it has. -/
def dependsOn (name other : String) : Bool :=
  (ruleset.technologies.lookup name).any fun tech =>
    (tech.requires.any fun reference => (parseTechnologyReference reference).1 == other) ||
      providesCategory ruleset tech other

/-- What the first pass drops has no effect on the second one.

The implications of the first signals are complete after the allowed rounds. A technology that was
dropped for a missing requirement misses it in the detection of all signals too, unless the second
pass has it again on the same grounds. A technology that the second pass lacks neither excludes nor
supports one that it has. -/
structure DropsHarmless : Prop where
  closed : impliesStep ruleset (expandNames ruleset first) = expandNames ruleset first
  unmet : ∀ name ∈ applyTechnologyExclusions ruleset (expandNames ruleset first),
    name ∉ supportedNames ruleset (expandNames ruleset first) → name ∉ later →
      (name ∈ first ∨ name ∉ secondNames ruleset first later) →
        name ∉ supportedNames ruleset (batchNames ruleset first later)
  excludes : ∀ lost ∈ batchNames ruleset first later \ secondNames ruleset first later,
    ∀ name ∈ secondNames ruleset first later, ¬ excludesTechnology ruleset lost name
  requires : ∀ lost ∈ batchNames ruleset first later \ secondNames ruleset first later,
    ∀ name ∈ secondNames ruleset first later, ¬ dependsOn ruleset name lost

section Names

variable {ruleset first later}

/-- One round over a union is the union of the rounds. -/
theorem impliesStep_union (left right : Finset String) :
    impliesStep ruleset (left ∪ right) = impliesStep ruleset left ∪ impliesStep ruleset right := by
  simp only [impliesStep, impliedNames, Finset.union_biUnion, Finset.filter_union]
  ac_rfl

/-- The expansion of a union is the union of the expansions. -/
theorem expandNames_union (left right : Finset String) :
    expandNames ruleset (left ∪ right) = expandNames ruleset left ∪ expandNames ruleset right :=
  Rounds.iterate_union impliesStep_union maxImpliesDepth left right

/-- More names are expanded to more names. -/
theorem expandNames_mono : Monotone (expandNames ruleset) :=
  (Rounds.monotone_of_union impliesStep_union).iterate maxImpliesDepth

/-- The expansion keeps what it starts from. -/
theorem subset_expandNames (known : Finset String) : known ⊆ expandNames ruleset known :=
  Function.id_le_iterate_of_id_le (fun _ => Finset.subset_union_left) maxImpliesDepth known

/-- The expansion of the first signals is within the expansion of all. -/
theorem first_subset_batchNames : expandNames ruleset first ⊆ batchNames ruleset first later :=
  expandNames_mono Finset.subset_union_left

/-- The second pass finds nothing that a detection of all signals does not find. -/
theorem secondNames_subset_batchNames
    (hclosed : impliesStep ruleset (expandNames ruleset first) = expandNames ruleset first) :
    secondNames ruleset first later ⊆ batchNames ruleset first later := by
  have hkept : expandNames ruleset (keptNames ruleset (expandNames ruleset first)) ⊆
      expandNames ruleset first :=
    calc expandNames ruleset (keptNames ruleset (expandNames ruleset first))
        ⊆ expandNames ruleset (expandNames ruleset first) :=
          expandNames_mono (keptNames_subset _)
      _ = expandNames ruleset first := Function.iterate_fixed hclosed maxImpliesDepth
  rw [secondNames, batchNames, expandNames_union, expandNames_union]
  exact Finset.union_subset_union_left hkept

/-- What the second pass lacks was found by the first pass and dropped. -/
theorem dropped_of_lost {name : String} (hbatch : name ∈ batchNames ruleset first later)
    (hsecond : name ∉ secondNames ruleset first later) :
    name ∈ expandNames ruleset first ∧
      name ∉ keptNames ruleset (expandNames ruleset first) ∧ name ∉ later := by
  rw [secondNames, expandNames_union, Finset.mem_union, not_or] at hsecond
  rw [batchNames, expandNames_union, Finset.mem_union] at hbatch
  exact ⟨hbatch.resolve_right hsecond.2, fun h => hsecond.1 (subset_expandNames _ h),
    fun h => hsecond.2 (subset_expandNames _ h)⟩

/-- A detected name stays if no detected name excludes it. -/
theorem mem_applyTechnologyExclusions {detected : Finset String} {name : String} :
    name ∈ applyTechnologyExclusions ruleset detected ↔
      name ∈ detected ∧ ∀ other ∈ detected, ¬ excludesTechnology ruleset other name :=
  Finset.mem_filter

/-- Requirements only remove names. -/
theorem supportedNames_subset (detected : Finset String) :
    supportedNames ruleset detected ⊆ applyTechnologyExclusions ruleset detected := by
  rw [supportedNames, applyTechnologyRequires_eq]
  exact Rounds.iterate_filterStep_subset _ _

/-- A supported name is kept if it is not on the denylist. -/
theorem mem_keptNames {detected : Finset String} {name : String} :
    name ∈ keptNames ruleset detected ↔
      name ∈ supportedNames ruleset detected ∧ ¬ isDenylistedTechnology ruleset name :=
  Finset.mem_filter

/-- A technology that the first pass dropped is dropped from all signals too, unless the second
pass has it on the same grounds. -/
theorem DropsHarmless.not_kept (hdrops : DropsHarmless ruleset first later) {name : String}
    (hfirst : name ∈ expandNames ruleset first)
    (hdropped : name ∉ keptNames ruleset (expandNames ruleset first)) (hlater : name ∉ later)
    (hground : name ∈ first ∨ name ∉ secondNames ruleset first later) :
    name ∉ keptNames ruleset (batchNames ruleset first later) := by
  intro hkept
  obtain ⟨hsupported, hdeny⟩ := mem_keptNames.mp hkept
  by_cases hexcluded : name ∈ applyTechnologyExclusions ruleset (expandNames ruleset first)
  · -- It was not excluded and is not on the denylist, so a requirement was missing.
    have hunmet : name ∉ supportedNames ruleset (expandNames ruleset first) := fun h =>
      hdropped (mem_keptNames.mpr ⟨h, hdeny⟩)
    exact hdrops.unmet name hexcluded hunmet hlater hground hsupported
  · -- The technology that excluded it is among all names too.
    refine hexcluded (mem_applyTechnologyExclusions.mpr ⟨hfirst, fun other hother => ?_⟩)
    exact (mem_applyTechnologyExclusions.mp (supportedNames_subset _ hsupported)).2 other
      (first_subset_batchNames hother)

/-- Within the second pass, the exclusions are those of all names. -/
theorem DropsHarmless.exclusions_inter (hdrops : DropsHarmless ruleset first later) :
    applyTechnologyExclusions ruleset (batchNames ruleset first later) ∩
        secondNames ruleset first later =
      applyTechnologyExclusions ruleset (secondNames ruleset first later) := by
  have hsubset := @secondNames_subset_batchNames ruleset first later hdrops.closed
  ext name
  simp only [Finset.mem_inter, mem_applyTechnologyExclusions]
  constructor
  · intro h
    obtain ⟨⟨-, hbatch⟩, hname⟩ := h
    exact ⟨hname, fun other hother => hbatch other (hsubset hother)⟩
  · intro h
    obtain ⟨hname, hsecond⟩ := h
    refine ⟨⟨hsubset hname, fun other hother => ?_⟩, hname⟩
    by_cases hlost : other ∈ secondNames ruleset first later
    · exact hsecond other hlost
    · exact hdrops.excludes other (Finset.mem_sdiff.mpr ⟨hother, hlost⟩) name hname

/-- Names that a technology does not depend on do not matter for its requirements. -/
theorem technologyRequiresSatisfied_inter {detected part : Finset String} {name : String}
    (hindependent : ∀ other ∈ detected, other ∉ part → ¬ dependsOn ruleset name other) :
    technologyRequiresSatisfied ruleset detected name ↔
      technologyRequiresSatisfied ruleset (detected ∩ part) name := by
  cases hlookup : ruleset.technologies.lookup name with
  | none => simp [technologyRequiresSatisfied, hlookup]
  | some tech =>
      have hmem : ∀ other, (tech.requires.any fun reference =>
            (parseTechnologyReference reference).1 == other) ∨ providesCategory ruleset tech other →
          (other ∈ detected ↔ other ∈ detected ∩ part) := by
        intro other hdepends
        rw [Finset.mem_inter, iff_self_and]
        intro hother
        by_contra hpart
        exact hindependent other hother hpart (by simpa [dependsOn, hlookup] using hdepends)
      simp only [technologyRequiresSatisfied, hlookup, Option.all_some, Bool.and_eq_true,
        List.all_eq_true, decide_eq_true_eq, Bool.or_eq_true]
      refine and_congr (forall₂_congr fun reference hreference => ?_) (or_congr_right ?_)
      · exact hmem _ (Or.inl (List.any_eq_true.mpr ⟨reference, hreference, by simp⟩))
      · refine exists_congr fun other => ⟨?_, ?_⟩
        · intro h
          obtain ⟨hother, hne, hprovides⟩ := h
          exact ⟨(hmem other (Or.inr hprovides)).mp hother, hne, hprovides⟩
        · intro h
          obtain ⟨hother, hne, hprovides⟩ := h
          exact ⟨(hmem other (Or.inr hprovides)).mpr hother, hne, hprovides⟩

/-- Within the second pass, the technologies with their requirements met are those of all names. -/
theorem DropsHarmless.supported_inter (hdrops : DropsHarmless ruleset first later) :
    supportedNames ruleset (batchNames ruleset first later) ∩ secondNames ruleset first later =
      supportedNames ruleset (secondNames ruleset first later) := by
  rw [supportedNames, supportedNames, applyTechnologyRequires_eq, applyTechnologyRequires_eq,
    ← hdrops.exclusions_inter]
  refine Rounds.iterate_filterStep_inter (fun s hs name hname => ?_) _ (Finset.filter_subset _ _)
  obtain ⟨-, hsecond⟩ := Finset.mem_inter.mp hname
  exact technologyRequiresSatisfied_inter fun other hother hlost =>
    hdrops.requires other (Finset.mem_sdiff.mpr ⟨hs hother, hlost⟩) name hsecond

/-- Both ways of detection keep the same names. -/
theorem DropsHarmless.keptNames_eq (hdrops : DropsHarmless ruleset first later) :
    keptNames ruleset (secondNames ruleset first later) =
      keptNames ruleset (batchNames ruleset first later) := by
  ext name
  rw [mem_keptNames, ← hdrops.supported_inter, Finset.mem_inter]
  constructor
  · intro h
    obtain ⟨⟨hsupported, -⟩, hdeny⟩ := h
    exact mem_keptNames.mpr ⟨hsupported, hdeny⟩
  · intro hkept
    obtain ⟨hsupported, hdeny⟩ := mem_keptNames.mp hkept
    refine ⟨⟨hsupported, ?_⟩, hdeny⟩
    -- A name that the second pass lacks was dropped by the first one.
    by_contra hlost
    obtain ⟨hfirst, hdropped, hlater⟩ := dropped_of_lost (keptNames_subset _ hkept) hlost
    exact hdrops.not_kept hfirst hdropped hlater (Or.inr hlost) hkept

/-- A kept name counts as observed in both ways of detection or in neither. -/
theorem DropsHarmless.observed_iff (hdrops : DropsHarmless ruleset first later) {name : String}
    (hkept : name ∈ keptNames ruleset (batchNames ruleset first later)) :
    name ∈ first ∩ keptNames ruleset (expandNames ruleset first) ∪ later ↔
      name ∈ first ∪ later := by
  simp only [Finset.mem_union, Finset.mem_inter]
  constructor
  · intro h
    rcases h with ⟨hfirst, -⟩ | hlater
    · exact Or.inl hfirst
    · exact Or.inr hlater
  · intro h
    rcases h with hfirst | hlater
    · by_contra hnot
      obtain ⟨hdropped, hlater⟩ := not_or.mp hnot
      exact hdrops.not_kept (subset_expandNames _ hfirst) (fun h => hdropped ⟨hfirst, h⟩) hlater
        (Or.inl hfirst) hkept
    · exact Or.inr hlater

end Names

/-- Two passes report the same technologies as one detection of all signals, with the same flags,
when what the first pass drops has no further effect. -/
theorem supplement_agrees_with_batch (order order' batchOrder : HashOrder)
    (signals later : List MatchResult)
    (hdrops : DropsHarmless ruleset (observedNames signals) (observedNames later)) :
    namesWithFlags
        (supplementTechnologies ruleset order' (detectTechnologies ruleset order signals) later) =
      namesWithFlags (detectTechnologies ruleset batchOrder (signals ++ later)) := by
  have happend :
      observedNames (signals ++ later) = observedNames signals ∪ observedNames later := by
    simp [observedNames]
  by_cases hlater : later = []
  · -- Without later signals the first detection is returned as it is.
    subst hlater
    rw [supplementTechnologies, if_pos rfl, List.append_nil, detectTechnologies_names,
      detectTechnologies_names]
  · rw [supplementTechnologies_names ruleset order order' hlater, detectTechnologies_names, happend]
    have hkept := hdrops.keptNames_eq
    rw [secondNames, batchNames] at hkept
    rw [hkept]
    refine Finset.image_congr fun name hname => ?_
    have hobserved := hdrops.observed_iff (Finset.mem_coe.mp hname)
    simp only [Prod.mk.injEq, true_and, decide_eq_decide, not_iff_not]
    exact hobserved

/-- The order in which the entries were written. -/
def HashOrder.ofEntries : HashOrder where
  keys detected := detected.keys
  perm _ := List.Perm.refl _

/-- A shop site that sends a transport header and carries the marks of two systems, of which one
excludes the other. Its name servers come later. -/
def shopRuleset : FingerprintRuleset where
  technologies := List.toAList
    [⟨"Magento", { implies := ["PHP\\;confidence:75"], excludes := ["WordPress"] }⟩,
      ⟨"WordPress", { implies := ["MySQL"] }⟩, ⟨"PHP", {}⟩, ⟨"MySQL", {}⟩, ⟨"HSTS", {}⟩,
      ⟨"Cloudflare", {}⟩]

/-- The signals of a shop: a cookie, a version in the body and a header. -/
def shopSignals : List MatchResult :=
  [⟨"Magento", none, .cookie⟩, ⟨"WordPress", some "6.4", .html⟩, ⟨"HSTS", none, .header⟩]

/-- The two ways agree for the shop. -/
theorem supplement_agrees_with_batch_shop :
    DropsHarmless shopRuleset (observedNames shopSignals) {"Cloudflare"} ∧
      namesWithFlags (supplementTechnologies shopRuleset .ofEntries
          (detectTechnologies shopRuleset .ofEntries shopSignals) [⟨"Cloudflare", none, .ns⟩]) =
        namesWithFlags (detectTechnologies shopRuleset .ofEntries
          (shopSignals ++ [⟨"Cloudflare", none, .ns⟩])) := by
  have hdrops : DropsHarmless shopRuleset (observedNames shopSignals)
      (observedNames [⟨"Cloudflare", none, .ns⟩]) :=
    ⟨by decide +kernel, by decide +kernel, by decide +kernel, by decide +kernel⟩
  exact ⟨hdrops, supplement_agrees_with_batch shopRuleset _ _ _ shopSignals _ hdrops⟩

/-- A plugin that requires its host system, as in the rules of WooCommerce. -/
def pluginRuleset : FingerprintRuleset where
  technologies := List.toAList
    [⟨"WooCommerce", { requires := ["WordPress"] }⟩, ⟨"WordPress", {}⟩]

/-- The page shows the plugin and only a fetched script shows the host system: the first pass has
dropped the plugin when the script is matched. -/
theorem supplement_misses_required_later :
    ¬ ∀ (ruleset : FingerprintRuleset) (order order' batchOrder : HashOrder)
      (signals later : List MatchResult),
      namesWithFlags
          (supplementTechnologies ruleset order' (detectTechnologies ruleset order signals) later) =
        namesWithFlags (detectTechnologies ruleset batchOrder (signals ++ later)) := by
  intro h
  have hplugin := h pluginRuleset .ofEntries .ofEntries .ofEntries
    [⟨"WooCommerce", none, .html⟩] [⟨"WordPress", none, .scripts⟩]
  revert hplugin
  decide +kernel

end DomainStatus.Fingerprint
