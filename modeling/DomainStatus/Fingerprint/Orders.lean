import DomainStatus.Fingerprint.DetectedNames
import DomainStatus.Fingerprint.Signals
import DomainStatus.Fingerprint.Trials

/-!
# Rulesets in another order

Two rulesets are the same when they differ only in the orders of their maps. Read
`SameRuleset.keptNames_eq` and `SameRuleset.indexResult_eq` first: neither the names that a
detection keeps nor what the literal index finds depends on these orders.
-/

namespace DomainStatus.Fingerprint

/-- The same map in another order. -/
def SameMap {κ ν : Type} (left right : HashMap κ ν) : Prop :=
  left.entries.Perm right.entries

/-- A technology without its maps. -/
def Technology.core (tech : Technology) : Technology :=
  { tech with headers := ∅, cookies := ∅, metaTags := ∅, dns := ∅, js := ∅ }

/-- The two technologies differ in the orders of their maps only. -/
structure SameTechnology (left right : Technology) : Prop where
  core : left.core = right.core
  headers : SameMap left.headers right.headers
  cookies : SameMap left.cookies right.cookies
  metaTags : SameMap left.metaTags right.metaTags
  dns : SameMap left.dns right.dns
  js : SameMap left.js right.js

/-- The two rulesets differ in the orders of their maps only. -/
structure SameRuleset (left right : FingerprintRuleset) : Prop where
  technologies : ∀ name, Option.Rel SameTechnology (left.technologies.lookup name)
    (right.technologies.lookup name)
  categories : SameMap left.categories right.categories
  metadata : left.metadata = right.metadata

section Maps

variable {κ ν : Type} {left right : HashMap κ ν}

/-- A map is the same as itself. -/
theorem SameMap.refl (map : HashMap κ ν) : SameMap map map :=
  List.Perm.refl _

/-- The keys of the same maps are a permutation of each other. -/
theorem SameMap.keys_perm (hsame : SameMap left right) : left.keys.Perm right.keys :=
  List.Perm.map Sigma.fst hsame

/-- The same maps hold the same under every key. -/
theorem SameMap.lookup_eq [DecidableEq κ] (hsame : SameMap left right) (key : κ) :
    left.lookup key = right.lookup key :=
  AList.perm_lookup hsame

end Maps

/-- A technology is the same as itself. -/
theorem SameTechnology.refl (tech : Technology) : SameTechnology tech tech :=
  ⟨rfl, SameMap.refl _, SameMap.refl _, SameMap.refl _, SameMap.refl _, SameMap.refl _⟩

namespace SameRuleset

variable {left right : FingerprintRuleset}

/-- Under a name the same rulesets have nothing or the same technology. -/
theorem lookup_cases (hsame : SameRuleset left right) (name : String) :
    (left.technologies.lookup name = none ∧ right.technologies.lookup name = none) ∨
      ∃ tech other, left.technologies.lookup name = some tech ∧
        right.technologies.lookup name = some other ∧ SameTechnology tech other := by
  have hrel := hsame.technologies name
  generalize left.technologies.lookup name = first at hrel
  generalize right.technologies.lookup name = second at hrel
  cases hrel with
  | none => exact .inl ⟨rfl, rfl⟩
  | some htech => exact .inr ⟨_, _, rfl, rfl, htech⟩

/-- What is read off a technology without its maps is the same in both rulesets. -/
theorem map_lookup_eq {α : Type} (hsame : SameRuleset left right) (name : String)
    {f : Technology → α} (hcore : ∀ tech, f tech = f tech.core) :
    (left.technologies.lookup name).map f = (right.technologies.lookup name).map f := by
  obtain ⟨hleft, hright⟩ | ⟨tech, other, hleft, hright, htech⟩ := hsame.lookup_cases name
  · rw [hleft, hright]
  · rw [hleft, hright, Option.map_some, Option.map_some, hcore, htech.core, ← hcore]

/-- The same rulesets know the same names. -/
theorem mem_technologies_iff (hsame : SameRuleset left right) (name : String) :
    name ∈ left.technologies ↔ name ∈ right.technologies := by
  rw [← AList.lookup_isSome, ← AList.lookup_isSome]
  obtain ⟨hleft, hright⟩ | ⟨tech, other, hleft, hright, -⟩ := hsame.lookup_cases name
  · rw [hleft, hright]
  · rw [hleft, hright]
    rfl

/-- What depends on the core of a technology is the same in both rulesets. -/
theorem any_lookup_eq (hsame : SameRuleset left right) (name : String) {f : Technology → Bool}
    (hcore : ∀ tech, f tech = f tech.core) :
    (left.technologies.lookup name).any f = (right.technologies.lookup name).any f := by
  have hmap := hsame.map_lookup_eq name hcore
  have hany : ∀ found : Option Technology, found.any f = (found.map f).any id := by
    rintro (_ | tech) <;> rfl
  rw [hany, hany, hmap]

/-- The same rulesets have the same implications. -/
theorem impliedBy_eq (hsame : SameRuleset left right) : impliedBy left = impliedBy right := by
  funext name
  have hmap := hsame.map_lookup_eq name fun tech => show tech.implies = tech.core.implies from rfl
  have himplied : ∀ ruleset, impliedBy ruleset name =
      ((ruleset.technologies.lookup name).map Technology.implies).elim []
        (List.map parseTechnologyReference) := by
    intro ruleset
    unfold impliedBy
    cases ruleset.technologies.lookup name <;> rfl
  rw [himplied, himplied, hmap]

/-- The same rulesets have the same exclusions. -/
theorem excludesTechnology_eq (hsame : SameRuleset left right) :
    excludesTechnology left = excludesTechnology right := by
  funext techName excluded
  unfold excludesTechnology
  rw [hsame.any_lookup_eq techName fun _ => rfl]

/-- The same rulesets have the same categories. -/
theorem providesCategory_eq (hsame : SameRuleset left right) :
    providesCategory left = providesCategory right := by
  funext tech other
  exact hsame.any_lookup_eq other fun _ => rfl

/-- The same rulesets have the same requirements. -/
theorem technologyRequiresSatisfied_eq (hsame : SameRuleset left right) :
    technologyRequiresSatisfied left = technologyRequiresSatisfied right := by
  funext detected name
  unfold technologyRequiresSatisfied
  rw [hsame.providesCategory_eq]
  obtain ⟨hleft, hright⟩ | ⟨tech, other, hleft, hright, htech⟩ := hsame.lookup_cases name
  · rw [hleft, hright]
  · have hrequires : tech.requires = other.requires := by
      simpa only [Technology.core] using congrArg Technology.requires htech.core
    have hcategory : tech.requiresCategory = other.requiresCategory := by
      simpa only [Technology.core] using congrArg Technology.requiresCategory htech.core
    have hprovides : providesCategory right tech = providesCategory right other := by
      funext third
      simp only [providesCategory, hcategory]
    rw [hleft, hright]
    simp only [Option.all_some, hrequires, hcategory, hprovides]

/-- The same rulesets have the same denylist. -/
theorem isDenylistedTechnology_eq (hsame : SameRuleset left right) :
    isDenylistedTechnology left = isDenylistedTechnology right := by
  funext name
  unfold isDenylistedTechnology technologyInCategory
  simp only [hsame.categories.lookup_eq]
  rw [hsame.any_lookup_eq name fun _ => rfl]

/-- What is implied by a set of names does not depend on the orders. -/
theorem impliesStep_eq (hsame : SameRuleset left right) : impliesStep left = impliesStep right := by
  funext known
  unfold impliesStep impliedNames
  simp only [hsame.impliedBy_eq, hsame.mem_technologies_iff]

/-- The same rulesets expand names alike. -/
theorem expandNames_eq (hsame : SameRuleset left right) : expandNames left = expandNames right := by
  funext known
  unfold expandNames
  rw [hsame.impliesStep_eq]

/-- What is kept of a set of names does not depend on the orders. -/
theorem keptNames_eq (hsame : SameRuleset left right) : keptNames left = keptNames right := by
  funext detected
  unfold keptNames applyTechnologyRequires requiresRound applyTechnologyExclusions
  rw [hsame.technologyRequiresSatisfied_eq, hsame.isDenylistedTechnology_eq,
    hsame.excludesTechnology_eq]

end SameRuleset

/-! ## Needles -/

/-- The needle that a pattern has the search look for. -/
def patternNeedle (raw : String) : Option String :=
  match planStep raw with
  | .literal needle => some needle
  | .regex lead => lead
  | _ => none

/-- The needle is one that a pattern of the technologies has the search look for. -/
def NeedleOf (technologies : HashMap String Technology) (kind : ChannelKind) (needle : String) :
    Prop :=
  ∃ entry ∈ technologies.entries, ∃ raw ∈ entry.2.patterns kind, patternNeedle raw = some needle

section Needles

variable {R : RegexCrate}

/-- A step adds the needle of its pattern. -/
theorem compileStep_collects (needles : Interner) (raw : String) :
    Interner.Collects needles (compileStep R needles raw).2 (patternNeedle raw = some ·) := by
  rw [compileStep_eq_planned]
  unfold patternNeedle
  match planStep raw with
  | .dropped | .any _ | .regex none => exact (Interner.Collects.refl _).congr (by simp)
  | .literal needle => exact (Interner.intern_collects _ _).congr (by simp [eq_comm])
  | .regex (some lead) => exact (Interner.intern_collects _ _).congr (by simp [eq_comm])

/-- The steps add the needles of their patterns. -/
theorem compileSteps_collects (patterns : List String) (needles : Interner) :
    Interner.Collects needles (compileSteps R patterns needles).2
      (fun needle => ∃ raw ∈ patterns, patternNeedle raw = some needle) := by
  induction patterns generalizing needles with
  | nil => exact (Interner.Collects.refl _).congr (by simp)
  | cons raw rest ih =>
      exact ((compileStep_collects needles raw).trans (ih _)).congr (by simp)

/-- The index has the needles of all patterns of a channel. -/
theorem buildIndex_collects (technologies : HashMap String Technology) (kind : ChannelKind) :
    Interner.Collects default ((buildIndex R technologies).interners kind)
      (NeedleOf technologies kind) := by
  unfold buildIndex NeedleOf
  suffices h : ∀ (entries : List (Sigma fun _ : String => Technology)) (builder : IndexBuilder R),
      Interner.Collects (builder.interners kind)
        ((entries.foldl (fun builder entry => builder.add R entry.1 entry.2) builder).interners
          kind)
        (fun needle => ∃ entry ∈ entries, ∃ raw ∈ entry.2.patterns kind,
          patternNeedle raw = some needle) from
    h technologies.entries { interners := fun _ => default, plans := ∅ }
  intro entries
  induction entries with
  | nil => exact fun builder => (Interner.Collects.refl _).congr (by simp)
  | cons entry rest ih =>
      intro builder
      exact ((compileSteps_collects (entry.2.patterns kind) (builder.interners kind)).trans
        (ih (builder.add R entry.1 entry.2))).congr (by simp)

/-- The automaton of a channel has the channel's needles. -/
theorem needles_channels (aho : AhoCorasick) (technologies : HashMap String Technology)
    (kind : ChannelKind) :
    ((LiteralIndex.build R aho technologies).channels kind).needles =
      channelNeedles R technologies kind := by
  simp only [LiteralIndex.build, Interner.finish, channelNeedles]
  split
  case isTrue hempty => exact hempty.symm
  case isFalse => rfl

/-- The index can be built when no channel has too many needles. -/
theorem builds_iff {aho : AhoCorasick} {technologies : HashMap String Technology} :
    (LiteralIndex.build R aho technologies).builds ↔
      ∀ kind, (channelNeedles R technologies kind).length ≤ AhoCorasick.patternLimit := by
  simp only [LiteralIndex.builds, needles_channels, List.all_eq_true, decide_eq_true_eq]
  constructor
  · intro hall kind
    exact hall kind (by cases kind <;> simp)
  · exact fun hall kind _ => hall kind

/-- With room for all, the needles are those of the patterns. -/
theorem mem_channelNeedles {technologies : HashMap String Technology} {kind : ChannelKind}
    (hroom : (channelNeedles R technologies kind).length ≤ AhoCorasick.patternLimit)
    {needle : String} :
    needle ∈ channelNeedles R technologies kind ↔ NeedleOf technologies kind needle := by
  have hcollects := @buildIndex_collects R technologies kind
  have hlt : (channelNeedles R technologies kind).length < maxNeedles :=
    Nat.lt_of_le_of_lt hroom (by decide)
  constructor
  · intro hneedle
    exact (hcollects.mem needle hneedle).resolve_left List.not_mem_nil
  · exact hcollects.mem_of_room hlt needle

end Needles

namespace SameRuleset

variable {R : RegexCrate} {aho : AhoCorasick} {left right : FingerprintRuleset}

/-- A needle of one ruleset is a needle of the other. -/
theorem needleOf (hsame : SameRuleset left right) {kind : ChannelKind} {needle : String}
    (hneedle : NeedleOf left.technologies kind needle) :
    NeedleOf right.technologies kind needle := by
  obtain ⟨⟨name, tech⟩, hentry, raw, hraw, hneedle⟩ := hneedle
  have hleft : left.technologies.lookup name = some tech := AList.mem_lookup_iff.mpr hentry
  have hpatterns := hsame.map_lookup_eq name
    fun tech => show tech.patterns kind = tech.core.patterns kind by cases kind <;> rfl
  rw [hleft, Option.map_some] at hpatterns
  obtain ⟨other, hright, hother⟩ := Option.map_eq_some_iff.mp hpatterns.symm
  exact ⟨⟨name, other⟩, AList.mem_lookup_iff.mp hright, raw, hother ▸ hraw, hneedle⟩

/-- Sameness of rulesets is symmetric. -/
theorem symm (hsame : SameRuleset left right) : SameRuleset right left where
  technologies name := by
    obtain ⟨hleft, hright⟩ | ⟨tech, other, hleft, hright, htech⟩ := hsame.lookup_cases name
    · rw [hleft, hright]
      exact .none
    · rw [hleft, hright]
      exact .some ⟨htech.core.symm, htech.headers.symm, htech.cookies.symm, htech.metaTags.symm,
        htech.dns.symm, htech.js.symm⟩
  categories := hsame.categories.symm
  metadata := hsame.metadata.symm

/-- When a channel has room in one order, it has the same needles in every order. -/
theorem channelNeedles_perm (hsame : SameRuleset left right) {kind : ChannelKind}
    (hroom : (channelNeedles R left.technologies kind).length ≤ AhoCorasick.patternLimit) :
    (channelNeedles R left.technologies kind).Perm (channelNeedles R right.technologies kind) := by
  have hnodup : ∀ technologies, (channelNeedles R technologies kind).Nodup :=
    fun technologies => Interner.nodup_needles _
  have hcollects := @buildIndex_collects R right.technologies kind
  have hsubset : channelNeedles R right.technologies kind ⊆
      channelNeedles R left.technologies kind := by
    intro needle hneedle
    rw [mem_channelNeedles hroom]
    exact hsame.symm.needleOf
      ((hcollects.mem needle hneedle).resolve_left List.not_mem_nil)
  have hother : (channelNeedles R right.technologies kind).length ≤ AhoCorasick.patternLimit :=
    (List.Subperm.length_le ((hnodup _).subperm hsubset)).trans hroom
  rw [List.perm_ext_iff_of_nodup (hnodup _) (hnodup _)]
  intro needle
  rw [mem_channelNeedles hroom, mem_channelNeedles hother]
  exact ⟨hsame.needleOf, hsame.symm.needleOf⟩

/-- If the automata of one ruleset build, so do those of the other. -/
theorem builds_of_builds (hsame : SameRuleset left right)
    (hbuilds : (LiteralIndex.build R aho left.technologies).builds) :
    (LiteralIndex.build R aho right.technologies).builds := by
  rw [builds_iff] at hbuilds ⊢
  exact fun kind => (hsame.channelNeedles_perm (hbuilds kind)).length_eq ▸ hbuilds kind

/-- The index can be built in every order or in none. -/
theorem builds_eq (hsame : SameRuleset left right) :
    (LiteralIndex.build R aho left.technologies).builds =
      (LiteralIndex.build R aho right.technologies).builds := by
  rw [Bool.eq_iff_iff]
  exact ⟨hsame.builds_of_builds, hsame.symm.builds_of_builds⟩

/-- The order of the needles does not matter to the report. -/
theorem reported_eq_of_perm (haho : aho.ByText) {needles others : List String}
    (hperm : needles.Perm others) (text needle : String) :
    reported aho needles text needle = reported aho others text needle := by
  have hget : ∀ (texts : List String) (id : ℕ), (texts[id]? == some needle) =
      decide ((texts.map String.toList)[id]? = some needle.toList) := by
    intro texts id
    rw [List.getElem?_map]
    cases texts[id]? with
    | none => rfl
    | some found => simp [String.toList_inj, Bool.beq_eq_decide_eq]
  have hreports := AhoCorasick.reports_iff_of_perm aho haho (hperm.map String.toList) text.toList
    needle.toList
  rw [Bool.eq_iff_iff]
  simpa only [reported, findNeedles, hget, List.any_eq_true, decide_eq_true_eq] using hreports

/-- What the literal index finds does not depend on the orders. -/
theorem indexResult_eq (haho : aho.ByText) (hsame : SameRuleset left right)
    (hbuilds : (LiteralIndex.build R aho left.technologies).builds) :
    indexResult R aho left.technologies = indexResult R aho right.technologies := by
  funext trial
  have hperm := hsame.channelNeedles_perm (builds_iff.mp hbuilds trial.kind)
  have hcontains : ∀ lead, (channelNeedles R left.technologies trial.kind).contains lead =
      (channelNeedles R right.technologies trial.kind).contains lead := by
    intro lead
    rw [Bool.eq_iff_iff, List.contains_iff_mem, List.contains_iff_mem, hperm.mem_iff]
  simp only [indexResult, gatedResult, hcontains, reported_eq_of_perm haho hperm]

end SameRuleset

end DomainStatus.Fingerprint
