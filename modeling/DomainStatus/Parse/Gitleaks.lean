import DomainStatus.Lib.AhoCorasick
import DomainStatus.Lib.Interner
import DomainStatus.Lib.RegexCrate
import Mathlib.Data.List.Dedup
import Mathlib.Data.List.Sort
import Mathlib.Data.Rat.Defs

/-!
# Compiled gitleaks rules

The rules of the secret scanner and the search for the keywords of all of them, after
`src/parse/gitleaks.rs`. Keywords are numbered across the rules, and each rule keeps the numbers of
its own. Read `numberRules_spec` first: the numbers of a rule stand for its keywords. Whether the
crate `aho-corasick` can build a search for the keywords is a parameter.
-/

namespace DomainStatus.Secrets

/-- Texts that are no secrets. -/
structure CompiledRuleAllowlist (R : RegexCrate) where
  regexes : List R.Regex
  stopwords : List String
  regexTarget : Option String
  conditionAnd : Bool
  hasPaths : Bool

/-- The allowlist for all rules, with its regexes compiled. -/
structure CompiledGlobalAllowlist (R : RegexCrate) where
  regexes : List R.Regex
  stopwords : List String

/-- A rule that is ready for scanning. Its keywords are in lower case. -/
structure CompiledRule (R : RegexCrate) where
  id : String
  regex : R.Regex
  entropy : Option ℚ
  keywords : Option (List String)
  keywordPatternIds : Option (List ℕ)
  secretGroup : Option ℕ
  allowlists : List (CompiledRuleAllowlist R)
  path : Option String

/-- The search for the keywords of all rules. -/
structure KeywordPrefilter where
  patterns : List String

/-- The numbers of the keywords that occur in a text. -/
def KeywordPrefilter.matchedPatternIds (prefilter : KeywordPrefilter) (body : String) : List ℕ :=
  AhoCorasick.findOverlappingIter (prefilter.patterns.map String.toList) body.toList

/-- Some keyword of a rule was found. -/
def KeywordPrefilter.anyIdPresent (ruleIds matched : List ℕ) : Bool :=
  ruleIds.any fun id => matched.contains id

variable {R : RegexCrate}

/-- The numbers of the keywords of a rule. Empty keywords are passed over. There is no result when
the numbers are used up. -/
def internKeywords : Interner → List String → Option (List ℕ × Interner)
  | needles, [] => some ([], needles)
  | needles, keyword :: rest =>
      if keyword = "" then internKeywords needles rest
      else
        match needles.intern keyword with
        | (none, _) => none
        | (some id, needles) =>
            (internKeywords needles rest).map fun (ids, needles) => (id :: ids, needles)

/-- Gives each rule the numbers of its keywords, in order and each once. When the numbers are used
up the rest of the rules stays as it is. -/
def numberRules : Interner → List (CompiledRule R) → Option Interner × List (CompiledRule R)
  | needles, [] => (some needles, [])
  | needles, rule :: rest =>
      match rule.keywords with
      | none =>
          let (after, rest) := numberRules needles rest
          (after, rule :: rest)
      | some keywords =>
          match internKeywords needles keywords with
          | none => (none, rule :: rest)
          | some (ids, needles) =>
              let (after, rest) := numberRules needles rest
              let numbered :=
                if ids.isEmpty then rule
                else { rule with keywordPatternIds := some (ids.mergeSort).dedup }
              (after, numbered :: rest)

/-- Builds the search and numbers the keywords of the rules. Without a search the rules run
unconditionally. -/
def buildKeywordPrefilter (builds : List String → Bool) (rules : List (CompiledRule R)) :
    Option KeywordPrefilter × List (CompiledRule R) :=
  match numberRules default rules with
  | (none, rules) => (none, rules)
  | (some needles, rules) =>
      if needles.needles.isEmpty then (none, rules)
      else if builds needles.needles then (some { patterns := needles.needles }, rules)
      else (none, rules.map fun rule => { rule with keywordPatternIds := none })

/-! ## Numbers and keywords -/

/-- The numbers stand for the keywords that are not empty. -/
def Stands (needles : Interner) (keywords : List String) (ids : List ℕ) : Prop :=
  ∀ id, id ∈ ids ↔ ∃ keyword ∈ keywords, keyword ≠ "" ∧ needles.needles[id]? = some keyword

/-- The keywords have numbers already. -/
def Known (needles : Interner) (keywords : List String) : Prop :=
  ∀ keyword ∈ keywords, keyword ≠ "" → keyword ∈ needles.needles

/-- Numbers stay what they are when more keywords are numbered. -/
theorem Stands.extend {needles later : Interner} {keywords : List String} {ids : List ℕ}
    (h : Stands needles keywords ids) (hknown : Known needles keywords)
    (hlater : later.Extends needles) : Stands later keywords ids := by
  intro id
  rw [h id]
  refine exists_congr fun keyword => and_congr_right fun hmem => and_congr_right fun hne => ?_
  constructor
  · exact fun hid => hlater.getElem? hid
  · intro hid
    obtain ⟨first, hfirst⟩ := List.mem_iff_getElem?.mp (hknown keyword hmem hne)
    rwa [Interner.getElem?_inj hid (hlater.getElem? hfirst)]

/-- Known keywords stay known. -/
theorem Known.extend {needles later : Interner} {keywords : List String}
    (h : Known needles keywords) (hlater : later.Extends needles) : Known later keywords :=
  fun keyword hmem hne => hlater.subset (h keyword hmem hne)

/-- What the numbering of a rule's keywords does. -/
theorem internKeywords_spec {needles after : Interner} {keywords : List String} {ids : List ℕ}
    (h : internKeywords needles keywords = some (ids, after)) :
    after.Extends needles ∧ Known after keywords ∧ Stands after keywords ids ∧
      ∀ needle ∈ after.needles, needle ∈ needles.needles ∨ (needle ∈ keywords ∧ needle ≠ "") := by
  induction keywords generalizing needles ids with
  | nil =>
      cases h
      exact ⟨Interner.Extends.refl _, by simp [Known], by simp [Stands], fun _ => .inl⟩
  | cons keyword rest ih =>
      rw [internKeywords] at h
      split at h
      case isTrue hempty =>
        obtain ⟨hextends, hknown, hstands, hnew⟩ := ih h
        refine ⟨hextends, ?_, ?_, fun needle hneedle => ?_⟩
        · intro other hmem hne
          rcases List.mem_cons.mp hmem with rfl | hmem
          · exact absurd hempty hne
          · exact hknown other hmem hne
        · intro id
          rw [hstands id]
          simp [hempty]
        · exact (hnew needle hneedle).imp_right fun hmem => ⟨List.mem_cons_of_mem _ hmem.1, hmem.2⟩
      case isFalse hkeyword =>
        match hintern : needles.intern keyword with
        | (none, _) =>
            rw [hintern] at h
            cases h
        | (some id, middle) =>
            rw [hintern] at h
            obtain ⟨⟨others, last⟩, hrest, hpair⟩ := Option.map_eq_some_iff.mp h
            cases hpair
            obtain ⟨hextends, hknown, hstands, hnew⟩ := ih hrest
            obtain ⟨hid, hmiddle, hadded⟩ := Interner.intern_eq_some hintern
            have hlast := hextends.getElem? hid
            refine ⟨hextends.trans hmiddle, ?_, fun number => ?_, fun needle hneedle => ?_⟩
            · intro other hmem hne
              rcases List.mem_cons.mp hmem with rfl | hmem
              · exact List.mem_of_getElem? hlast
              · exact hknown other hmem hne
            · rw [List.mem_cons, hstands number]
              simp only [List.mem_cons, exists_eq_or_imp]
              refine or_congr_left ?_
              constructor
              · rintro rfl
                exact ⟨hkeyword, hlast⟩
              · exact fun hnumber => Interner.getElem?_inj hnumber.2 hlast
            · rcases hnew needle hneedle with hmem | hmem
              · rcases hadded needle hmem with hmem | rfl
                · exact .inl hmem
                · exact .inr ⟨List.mem_cons_self, hkeyword⟩
              · exact .inr ⟨List.mem_cons_of_mem _ hmem.1, hmem.2⟩

/-- The rule has the numbers of its keywords. Without keywords it has none. -/
def Numbered (needles : Interner) (rule : CompiledRule R) : Prop :=
  Known needles (rule.keywords.getD []) ∧
    match rule.keywordPatternIds with
    | none => ∀ keyword ∈ rule.keywords.getD [], keyword = ""
    | some ids => ids ≠ [] ∧ Stands needles (rule.keywords.getD []) ids

/-- Numbered rules stay numbered. -/
theorem Numbered.extend {needles later : Interner} {rule : CompiledRule R}
    (h : Numbered needles rule) (hlater : later.Extends needles) : Numbered later rule := by
  obtain ⟨hknown, hids⟩ := h
  refine ⟨hknown.extend hlater, ?_⟩
  cases hrule : rule.keywordPatternIds with
  | none => simpa [hrule] using hids
  | some ids =>
      simp only [hrule] at hids ⊢
      exact ⟨hids.1, hids.2.extend hknown hlater⟩

/-- The numbers of a rule stand for its keywords. -/
theorem numbered_of_internKeywords {needles after : Interner} {rule : CompiledRule R}
    {keywords : List String} {ids : List ℕ} (hrule : rule.keywords = some keywords)
    (hfresh : rule.keywordPatternIds = none)
    (h : internKeywords needles keywords = some (ids, after)) :
    Numbered after
      (if ids.isEmpty then rule
        else { rule with keywordPatternIds := some (ids.mergeSort).dedup }) := by
  obtain ⟨-, hknown, hstands, -⟩ := internKeywords_spec h
  unfold Numbered
  cases ids with
  | nil =>
      simp only [List.isEmpty_nil, if_true, hrule, hfresh, Option.getD_some]
      refine ⟨hknown, fun keyword hmem => ?_⟩
      by_contra hne
      obtain ⟨id, hid⟩ := List.mem_iff_getElem?.mp (hknown keyword hmem hne)
      exact absurd ((hstands id).mpr ⟨keyword, hmem, hne, hid⟩) List.not_mem_nil
  | cons id rest =>
      simp only [List.isEmpty_cons, Bool.false_eq_true, if_false, hrule, Option.getD_some]
      refine ⟨hknown, fun hnil => ?_, fun number => ?_⟩
      · have hmem : id ∈ ((id :: rest).mergeSort).dedup := by simp
        rw [hnil] at hmem
        cases hmem
      · rw [List.mem_dedup, List.mem_mergeSort, hstands number]

/-- Every rule gets the numbers of its keywords, and only keywords are numbered. -/
theorem numberRules_spec {needles after : Interner} {rules numbered : List (CompiledRule R)}
    (hfresh : ∀ rule ∈ rules, rule.keywordPatternIds = none)
    (h : numberRules needles rules = (some after, numbered)) :
    after.Extends needles ∧ (∀ rule ∈ numbered, Numbered after rule) ∧
      ∀ needle ∈ after.needles, needle ∈ needles.needles ∨ needle ≠ "" := by
  induction rules generalizing needles numbered with
  | nil =>
      cases h
      exact ⟨Interner.Extends.refl _, by simp, fun _ => .inl⟩
  | cons rule rest ih =>
      have hrest : ∀ other ∈ rest, other.keywordPatternIds = none := fun other hother =>
        hfresh other (List.mem_cons_of_mem _ hother)
      have hrule := hfresh rule List.mem_cons_self
      rw [numberRules] at h
      split at h
      next hnone =>
        cases hnumber : numberRules needles rest with
        | mk result others =>
            rw [hnumber] at h
            cases h
            obtain ⟨hextends, hall, hnew⟩ := ih hrest hnumber
            refine ⟨hextends, List.forall_mem_cons.mpr ⟨?_, hall⟩, hnew⟩
            simp [Numbered, Known, hnone, hrule]
      next keywords hkeywords =>
        match hintern : internKeywords needles keywords with
        | none =>
            rw [hintern] at h
            cases h
        | some (ids, middle) =>
            rw [hintern] at h
            dsimp only at h
            cases hnumber : numberRules middle rest with
            | mk result others =>
                rw [hnumber] at h
                cases h
                obtain ⟨hextends, hall, hnew⟩ := ih hrest hnumber
                obtain ⟨hmiddle, -, -, hadded⟩ := internKeywords_spec hintern
                have hhead := numbered_of_internKeywords hkeywords hrule hintern
                refine ⟨hextends.trans hmiddle,
                  List.forall_mem_cons.mpr ⟨hhead.extend hextends, hall⟩, fun needle hneedle => ?_⟩
                rcases hnew needle hneedle with hmem | hne
                · exact (hadded needle hmem).imp_right And.right
                · exact .inr hne

/-! ## All keywords -/

/-- The keywords of a rule that are not empty. -/
def CompiledRule.nonemptyKeywords (rule : CompiledRule R) : List String :=
  (rule.keywords.getD []).filter (· ≠ "")

/-- The keywords of all rules, each once. -/
def distinctKeywords (rules : List (CompiledRule R)) : List String :=
  (rules.flatMap CompiledRule.nonemptyKeywords).eraseDups

/-- The keywords of a rule that are not empty. -/
theorem mem_nonemptyKeywords {rule : CompiledRule R} {keyword : String} :
    keyword ∈ rule.nonemptyKeywords ↔ keyword ∈ rule.keywords.getD [] ∧ keyword ≠ "" := by
  simp [CompiledRule.nonemptyKeywords]

/-- The keywords of a rule are numbered when there is room for them. -/
theorem internKeywords_eraseDups {needles : Interner} {seen : List String}
    (hseen : needles.needles = seen.eraseDups) (keywords : List String) :
    (∃ ids after, internKeywords needles keywords = some (ids, after) ∧
        after.needles = (seen ++ keywords.filter (· ≠ "")).eraseDups) ∨
      (internKeywords needles keywords = none ∧
        maxNeedles < (seen ++ keywords.filter (· ≠ "")).eraseDups.length) := by
  induction keywords generalizing needles seen with
  | nil => exact .inl ⟨[], needles, rfl, by simpa using hseen⟩
  | cons keyword rest ih =>
      rw [internKeywords]
      by_cases hempty : keyword = ""
      · simpa [hempty] using ih hseen
      · rw [if_neg hempty, List.filter_cons_of_pos (by simpa using hempty), List.append_cons]
        obtain ⟨id, middle, hintern, hmiddle⟩ | ⟨hintern, hfull⟩ :=
          Interner.intern_eraseDups hseen keyword
        · rw [hintern]
          obtain ⟨ids, after, hrest, hafter⟩ | ⟨hrest, hfull⟩ := ih hmiddle
          · exact .inl ⟨id :: ids, after, by simp [hrest], hafter⟩
          · exact .inr ⟨by simp [hrest], hfull⟩
        · right
          refine ⟨?_, Nat.lt_of_lt_of_le hfull ?_⟩
          · match hsome : needles.intern keyword with
            | (none, _) => rfl
            | (some _, _) =>
                rw [hsome] at hintern
                cases hintern
          · rw [@List.eraseDups_append _ _ _ (seen ++ [keyword]), List.length_append]
            exact Nat.le_add_right _ _

/-- The keywords of all rules are numbered when there is room for them. -/
theorem numberRules_eraseDups {needles : Interner} {seen : List String}
    (hseen : needles.needles = seen.eraseDups) (rules : List (CompiledRule R)) :
    (∃ after numbered, numberRules needles rules = (some after, numbered) ∧
        after.needles = (seen ++ rules.flatMap CompiledRule.nonemptyKeywords).eraseDups) ∨
      ((numberRules needles rules).1 = none ∧
        maxNeedles < (seen ++ rules.flatMap CompiledRule.nonemptyKeywords).eraseDups.length) := by
  induction rules generalizing needles seen with
  | nil => exact .inl ⟨needles, [], rfl, by simpa using hseen⟩
  | cons rule rest ih =>
      rw [numberRules, List.flatMap_cons, ← List.append_assoc, CompiledRule.nonemptyKeywords]
      cases hkeywords : rule.keywords with
      | none =>
          simp only [Option.getD_none, List.filter_nil, List.append_nil]
          obtain ⟨after, numbered, hrest, hafter⟩ | ⟨hrest, hfull⟩ := ih hseen
          · exact .inl ⟨after, rule :: numbered, by rw [hrest], hafter⟩
          · exact .inr ⟨hrest, hfull⟩
      | some keywords =>
          simp only [Option.getD_some]
          obtain ⟨ids, middle, hintern, hmiddle⟩ | ⟨hintern, hfull⟩ :=
            internKeywords_eraseDups hseen keywords
          · rw [hintern]
            obtain ⟨after, numbered, hrest, hafter⟩ | ⟨hrest, hfull⟩ := ih hmiddle
            · exact .inl ⟨after, _, by simp only [hrest]; rfl, hafter⟩
            · exact .inr ⟨hrest, hfull⟩
          · rw [hintern]
            refine .inr ⟨rfl, Nat.lt_of_lt_of_le hfull ?_⟩
            rw [@List.eraseDups_append _ _ _ (seen ++ _), List.length_append]
            exact Nat.le_add_right _ _

/-- There is a search when there is a keyword, the numbers suffice and the search can be built. -/
theorem buildKeywordPrefilter_isSome (builds : List String → Bool)
    (rules : List (CompiledRule R)) :
    (buildKeywordPrefilter builds rules).1.isSome = true ↔
      distinctKeywords rules ≠ [] ∧ (distinctKeywords rules).length ≤ maxNeedles ∧
        builds (distinctKeywords rules) = true := by
  have hdefault : (default : Interner).needles = ([] : List String).eraseDups := rfl
  obtain ⟨after, numbered, hnumber, hafter⟩ | ⟨hnumber, hfull⟩ :=
    numberRules_eraseDups hdefault rules
  · rw [List.nil_append, ← distinctKeywords] at hafter
    have hroom : (distinctKeywords rules).length ≤ maxNeedles := by
      rw [← hafter]
      exact after.length_le
    unfold buildKeywordPrefilter
    rw [hnumber]
    simp only [hafter, hroom, true_and, List.isEmpty_iff]
    by_cases hsome : distinctKeywords rules = []
    · simp [hsome]
    · cases builds (distinctKeywords rules) <;> simp [hsome]
  · rw [List.nil_append] at hfull
    have hnone : (buildKeywordPrefilter builds rules).1 = none := by
      unfold buildKeywordPrefilter
      match hsome : numberRules default rules with
      | (none, _) => rfl
      | (some _, _) =>
          rw [hsome] at hnumber
          cases hnumber
    rw [hnone]
    simp only [Option.isSome_none, Bool.false_eq_true, distinctKeywords, false_iff, not_and]
    intro _ hroom
    exact absurd hroom (Nat.not_le.mpr hfull)

/-! ## What stays as it is -/

/-- The rule without numbers. -/
def CompiledRule.cleared (rule : CompiledRule R) : CompiledRule R :=
  { rule with keywordPatternIds := none }

/-- Apart from the numbers the rules stay as they are. -/
theorem numberRules_cleared (needles : Interner) (rules : List (CompiledRule R)) :
    (numberRules needles rules).2.map CompiledRule.cleared = rules.map CompiledRule.cleared := by
  induction rules generalizing needles with
  | nil => rfl
  | cons rule rest ih =>
      rw [numberRules]
      split
      · simp [ih]
      · split
        · rfl
        next ids middle _ => cases ids.isEmpty <;> simp [ih, CompiledRule.cleared]

/-- The prefilter changes nothing of a rule but its numbers. -/
theorem buildKeywordPrefilter_cleared (builds : List String → Bool)
    (rules : List (CompiledRule R)) :
    (buildKeywordPrefilter builds rules).2.map CompiledRule.cleared =
      rules.map CompiledRule.cleared := by
  have hcleared := numberRules_cleared default rules
  unfold buildKeywordPrefilter
  match hnumber : numberRules default rules with
  | (none, numbered) => rwa [hnumber] at hcleared
  | (some needles, numbered) =>
      dsimp only
      rw [hnumber] at hcleared
      split
      · exact hcleared
      · split
        · exact hcleared
        · rw [List.map_map]
          exact hcleared

/-- The keywords of a rule are among those of all rules. -/
theorem mem_distinctKeywords_of_build {builds : List String → Bool} {rules : List (CompiledRule R)}
    {rule : CompiledRule R} (hrule : rule ∈ (buildKeywordPrefilter builds rules).2)
    {keyword : String} (hmem : keyword ∈ rule.keywords.getD []) (hne : keyword ≠ "") :
    keyword ∈ distinctKeywords rules := by
  have hcleared := List.mem_map_of_mem (f := CompiledRule.cleared) hrule
  rw [buildKeywordPrefilter_cleared] at hcleared
  obtain ⟨original, horiginal, heq⟩ := List.mem_map.mp hcleared
  have hkeywords : original.cleared.keywords = rule.cleared.keywords := by rw [heq]
  rw [distinctKeywords, List.mem_eraseDups, List.mem_flatMap]
  exact ⟨original, horiginal, mem_nonemptyKeywords.mpr ⟨hkeywords ▸ hmem, hne⟩⟩

/-- With a search, the rules have the numbers of their keywords in it. -/
theorem buildKeywordPrefilter_some {builds : List String → Bool} {rules : List (CompiledRule R)}
    (hfresh : ∀ rule ∈ rules, rule.keywordPatternIds = none) {prefilter : KeywordPrefilter}
    (h : (buildKeywordPrefilter builds rules).1 = some prefilter) :
    ∃ needles : Interner, prefilter = { patterns := needles.needles } ∧
      (∀ needle ∈ needles.needles, needle ≠ "") ∧
      ∀ rule ∈ (buildKeywordPrefilter builds rules).2, Numbered needles rule := by
  unfold buildKeywordPrefilter at h ⊢
  match hnumber : numberRules default rules with
  | (none, _) =>
      rw [hnumber] at h
      cases h
  | (some needles, numbered) =>
      simp only [hnumber] at h ⊢
      obtain ⟨-, hall, hnew⟩ := numberRules_spec hfresh hnumber
      split at h
      case isTrue => cases h
      case isFalse hsome =>
        split at h
        case isTrue hbuilds =>
          cases h
          rw [if_neg hsome, if_pos hbuilds]
          exact ⟨needles, rfl, fun needle hneedle => (hnew needle hneedle).resolve_left
            List.not_mem_nil, hall⟩
        case isFalse => cases h

end DomainStatus.Secrets
