import DomainStatus.Fingerprint.DetectedNames
import DomainStatus.Lib.AnyOrder

/-!
# Versions of detected technologies

What is known of a technology when its signals are merged and implications are followed. The first
version counts, that of an observation before that of an implication. Read
`lookup_foldl_mergeObserved` and `versionOf_loop` first. Which implying technology comes
first depends on the order of the map of detected technologies.
-/

namespace DomainStatus.Fingerprint

/-- The version that is known of a technology. -/
def versionOf (detected : HashMap String TechInfo) (name : String) : Option String :=
  (detected.lookup name).bind TechInfo.version

/-! ## Observations -/

section Merge

/-- What the observations of one technology amount to. -/
def mergedInfo : List MatchResult → Option TechInfo
  | [] => none
  | first :: rest =>
      some { version := (first :: rest).findSome? fun result =>
               sanitizeTechnologyVersion result.version
             isImplied := false
             source := first.source }

/-- A result is merged into the entry of its technology. -/
theorem lookup_mergeObserved_self {detected : HashMap String TechInfo} {seen : List MatchResult}
    {result : MatchResult} (hseen : detected.lookup result.techName = mergedInfo seen) :
    (mergeObserved detected result).lookup result.techName = mergedInfo (seen ++ [result]) := by
  unfold mergeObserved
  rw [hseen]
  cases seen with
  | nil => simp [mergedInfo, AList.lookup_insert]
  | cons first rest =>
      simp only [mergedInfo, AList.lookup_insert, List.cons_append]
      rw [← List.cons_append, List.findSome?_append, List.findSome?_singleton]
      rfl

/-- Other entries are not touched. -/
theorem lookup_mergeObserved_ne {detected : HashMap String TechInfo} {result : MatchResult}
    {name : String} (hne : result.techName ≠ name) :
    (mergeObserved detected result).lookup name = detected.lookup name := by
  obtain ⟨info, -, hmerge⟩ := mergeObserved_eq_insert detected result
  rw [hmerge, AList.lookup_insert_ne hne.symm]

/-- Only its own observations count for a technology. -/
theorem lookup_foldl_mergeObserved (results : List MatchResult) (name : String) :
    (results.foldl mergeObserved ∅).lookup name =
      mergedInfo (results.filter (·.techName = name)) := by
  suffices h : ∀ (detected : HashMap String TechInfo) (seen : List MatchResult),
      detected.lookup name = mergedInfo seen → (results.foldl mergeObserved detected).lookup name =
        mergedInfo (seen ++ results.filter (·.techName = name)) from h ∅ [] rfl
  induction results with
  | nil =>
      intro detected seen hseen
      simpa using hseen
  | cons result rest ih =>
      intro detected seen hseen
      rw [List.foldl_cons]
      by_cases hname : result.techName = name
      · subst hname
        rw [ih _ _ (lookup_mergeObserved_self hseen), List.append_assoc,
          List.filter_cons_of_pos (by simp)]
        rfl
      · rw [ih _ _ ((lookup_mergeObserved_ne hname).trans hseen),
          List.filter_cons_of_neg (by simpa using hname)]

end Merge

/-! ## Implications -/

section Implies

variable (ruleset : FingerprintRuleset)

/-- The version that one technology implies for another. -/
def impliedVersion (name implier : String) : Option String :=
  (impliedBy ruleset implier).findSome? fun implied =>
    if implied.1 = name ∧ name ∈ ruleset.technologies then sanitizeTechnologyVersion implied.2
    else none

/-- One of the known technologies implies a version. -/
def ImpliesVersion (name : String) (known : Finset String) : Prop :=
  ∃ implier ∈ known, (impliedVersion ruleset name implier).isSome

instance (name : String) (known : Finset String) :
    Decidable (ImpliesVersion ruleset name known) :=
  inferInstanceAs (Decidable (∃ implier ∈ known, (impliedVersion ruleset name implier).isSome))

/-- The versions that implications can give in a number of rounds: those of the first round in which
a known technology implies one. -/
def impliedOutcomes (name : String) : ℕ → Finset String → Set (Option String)
  | 0, _ => {none}
  | rounds + 1, known =>
      if ImpliesVersion ruleset name known then
        {answer | answer.isSome ∧ ∃ implier ∈ known, impliedVersion ruleset name implier = answer}
      else impliedOutcomes name rounds (impliesStep ruleset known)

variable {ruleset} {name : String}

/-- An implication gives a version where there is none. -/
theorem versionOf_addImplied (state : HashMap String TechInfo × Bool)
    (implied : String × Option String) :
    versionOf (addImplied ruleset state implied).1 name = (versionOf state.1 name).or
      (if implied.1 = name ∧ name ∈ ruleset.technologies then
        sanitizeTechnologyVersion implied.2 else none) := by
  unfold addImplied
  by_cases hruleset : implied.1 ∈ ruleset.technologies
  · by_cases hname : implied.1 = name
    · subst hname
      cases hlookup : state.1.lookup implied.1 <;> simp [hruleset, hlookup, versionOf]
    · have hother : name ≠ implied.1 := fun h => hname h.symm
      cases hlookup : state.1.lookup implied.1 <;>
        simp [hruleset, hlookup, versionOf, hname, AList.lookup_insert_ne hother]
  · have hnone : ¬ (implied.1 = name ∧ name ∈ ruleset.technologies) := by
      intro h
      obtain ⟨rfl, h⟩ := h
      exact hruleset h
    simp [hruleset, hnone]

/-- Of several implications the first with a version counts. -/
theorem versionOf_foldl_addImplied (references : List (String × Option String))
    (state : HashMap String TechInfo × Bool) :
    versionOf (references.foldl (addImplied ruleset) state).1 name = (versionOf state.1 name).or
      (references.findSome? fun implied =>
        if implied.1 = name ∧ name ∈ ruleset.technologies then sanitizeTechnologyVersion implied.2
        else none) := by
  induction references generalizing state with
  | nil => simp
  | cons implied rest ih =>
      rw [List.foldl_cons, ih, versionOf_addImplied, AnyOrder.findSome?_cons_eq_or,
        Option.or_assoc]

/-- A round fills in the version of the first known technology that implies one. -/
theorem versionOf_impliesRound (order : HashOrder) (detected : HashMap String TechInfo) :
    versionOf (impliesRound ruleset order detected).1 name = (versionOf detected name).or
      ((order.keys detected).findSome? (impliedVersion ruleset name)) := by
  rw [impliesRound, versionOf_foldl_addImplied, AnyOrder.findSome?_flatMap]
  rfl

/-- An order of the keys has the names of the map. -/
theorem mem_keys_iff (order : HashOrder) (detected : HashMap String TechInfo) (known : String) :
    known ∈ order.keys detected ↔ known ∈ names detected := by
  rw [(order.perm detected).mem_iff, ← AList.mem_keys, mem_names]

/-- Without an implied version a fixed set of names gives none. -/
theorem impliedOutcomes_of_stable {known : Finset String}
    (hnone : ¬ ImpliesVersion ruleset name known) (hstable : impliesStep ruleset known = known)
    (rounds : ℕ) : impliedOutcomes ruleset name rounds known = {none} := by
  induction rounds with
  | zero => rfl
  | succ rounds ih => rw [impliedOutcomes, if_neg hnone, hstable, ih]

/-- Without an implied version none is found. -/
theorem findSome?_keys_of_not_implies {order : HashOrder} {detected : HashMap String TechInfo}
    (hnone : ¬ ImpliesVersion ruleset name (names detected)) :
    (order.keys detected).findSome? (impliedVersion ruleset name) = none := by
  rw [List.findSome?_eq_none_iff]
  intro implier himplier
  by_contra hsome
  exact hnone ⟨implier, (mem_keys_iff order detected implier).mp himplier,
    Option.isSome_iff_ne_none.mpr hsome⟩

/-- An implied version is found in every order. -/
theorem isSome_findSome?_keys (order : HashOrder) {detected : HashMap String TechInfo}
    (himplies : ImpliesVersion ruleset name (names detected)) :
    ((order.keys detected).findSome? (impliedVersion ruleset name)).isSome := by
  obtain ⟨implier, hknown, hsome⟩ := himplies
  exact List.findSome?_isSome_iff.mpr
    ⟨implier, (mem_keys_iff order detected implier).mpr hknown, hsome⟩

/-- A version that is known stays. -/
theorem versionOf_loop_of_known (order : HashOrder) (rounds : ℕ)
    {detected : HashMap String TechInfo} {version : String}
    (hversion : versionOf detected name = some version) :
    versionOf (Rounds.loop (impliesRound ruleset order) rounds detected) name = some version := by
  refine Rounds.loop_induction (motive := fun state => versionOf state name = some version)
    (fun state hstate => ?_) rounds hversion
  rw [versionOf_impliesRound, hstate, Option.some_or]

/-- After a round in which a version is implied, later rounds do not count. -/
theorem versionOf_loop_of_implies (order : HashOrder) (rounds : ℕ)
    {detected : HashMap String TechInfo}
    (himplies : ImpliesVersion ruleset name (names detected)) :
    versionOf (Rounds.loop (impliesRound ruleset order) (rounds + 1) detected) name =
      (versionOf detected name).or
        ((order.keys detected).findSome? (impliedVersion ruleset name)) := by
  have hround := @versionOf_impliesRound ruleset name order detected
  obtain ⟨version, hversion⟩ : ∃ version, (versionOf detected name).or
      ((order.keys detected).findSome? (impliedVersion ruleset name)) = some version := by
    rw [← Option.isSome_iff_exists, Option.isSome_or, isSome_findSome?_keys order himplies,
      Bool.or_true]
  rw [hversion] at hround ⊢
  rw [Rounds.loop]
  split
  · exact versionOf_loop_of_known order rounds hround
  · exact hround

/-- A round in which no version is implied leaves the rest to the later ones. -/
theorem versionOf_loop_of_not_implies (order : HashOrder) (rounds : ℕ)
    {detected : HashMap String TechInfo} {answer : Option String}
    (hnone : ¬ ImpliesVersion ruleset name (names detected))
    (hanswer : answer ∈ impliedOutcomes ruleset name rounds (impliesStep ruleset (names detected)))
    (hlater : versionOf (Rounds.loop (impliesRound ruleset order) rounds
      (impliesRound ruleset order detected).1) name =
        (versionOf (impliesRound ruleset order detected).1 name).or answer) :
    versionOf (Rounds.loop (impliesRound ruleset order) (rounds + 1) detected) name =
      (versionOf detected name).or answer := by
  have hround := @versionOf_impliesRound ruleset name order detected
  rw [findSome?_keys_of_not_implies hnone, Option.or_none] at hround
  rw [Rounds.loop]
  split
  case isTrue => rw [hlater, hround]
  case isFalse hstop =>
    -- Nothing new was found, so that the later rounds would imply nothing either.
    have hstable := impliesRound_stable (Bool.eq_false_of_not_eq_true hstop)
    rw [hstable, impliedOutcomes_of_stable hnone hstable, Set.mem_singleton_iff] at hanswer
    rw [hround, hanswer, Option.or_none]

/-- The rounds of implications add one of the implied versions. -/
theorem versionOf_loop (order : HashOrder) (rounds : ℕ) (detected : HashMap String TechInfo) :
    ∃ answer ∈ impliedOutcomes ruleset name rounds (names detected),
      versionOf (Rounds.loop (impliesRound ruleset order) rounds detected) name =
        (versionOf detected name).or answer := by
  induction rounds generalizing detected with
  | zero => exact ⟨none, rfl, Option.or_none.symm⟩
  | succ rounds ih =>
      by_cases himplies : ImpliesVersion ruleset name (names detected)
      · refine ⟨_, ?_, versionOf_loop_of_implies order rounds himplies⟩
        have hfirst := isSome_findSome?_keys order himplies
        rw [impliedOutcomes, if_pos himplies]
        obtain ⟨version, hversion⟩ := Option.isSome_iff_exists.mp hfirst
        obtain ⟨first, hmem, himplied⟩ := List.exists_of_findSome?_eq_some hversion
        exact ⟨hfirst, first, (mem_keys_iff order detected first).mp hmem,
          himplied.trans hversion.symm⟩
      · obtain ⟨answer, hanswer, hlater⟩ := ih (impliesRound ruleset order detected).1
        rw [names_impliesRound] at hanswer
        refine ⟨answer, ?_, versionOf_loop_of_not_implies order rounds himplies hanswer hlater⟩
        rwa [impliedOutcomes, if_neg himplies]

/-- The order with one technology in front. -/
def frontOrder (name : String) : HashOrder where
  keys detected := (AnyOrder.front name detected).keys
  perm detected := (AnyOrder.front_perm name detected).map Sigma.fst

/-- Each implied version is that of the order with the right technology in front. -/
theorem exists_front_versionOf_loop {rounds : ℕ} {known : Finset String} {answer : Option String}
    (hanswer : answer ∈ impliedOutcomes ruleset name rounds known) :
    ∃ implier, ∀ detected, names detected = known →
      versionOf (Rounds.loop (impliesRound ruleset (frontOrder implier)) rounds detected) name =
        (versionOf detected name).or answer := by
  induction rounds generalizing known with
  | zero =>
      rw [impliedOutcomes, Set.mem_singleton_iff] at hanswer
      refine ⟨"", fun detected _ => ?_⟩
      rw [hanswer, Option.or_none]
      rfl
  | succ rounds ih =>
      rw [impliedOutcomes] at hanswer
      by_cases himplies : ImpliesVersion ruleset name known
      · rw [if_pos himplies] at hanswer
        obtain ⟨hsome, implier, hknown, himplied⟩ := hanswer
        refine ⟨implier, fun detected hnames => ?_⟩
        subst hnames
        obtain ⟨rest, hkeys⟩ : ∃ rest, (frontOrder implier).keys detected = implier :: rest :=
          AnyOrder.keys_front (mem_names.mp hknown)
        rw [versionOf_loop_of_implies _ rounds himplies, hkeys, AnyOrder.findSome?_cons_eq_or,
          himplied, Option.or_of_isSome hsome]
      · rw [if_neg himplies] at hanswer
        obtain ⟨implier, hlater⟩ := ih hanswer
        refine ⟨implier, fun detected hnames => ?_⟩
        subst hnames
        exact versionOf_loop_of_not_implies _ rounds himplies hanswer
          (hlater _ (names_impliesRound _ detected))

/-- There is always an outcome. -/
theorem impliedOutcomes_nonempty (rounds : ℕ) (known : Finset String) :
    (impliedOutcomes ruleset name rounds known).Nonempty := by
  induction rounds generalizing known with
  | zero => exact ⟨none, rfl⟩
  | succ rounds ih =>
      rw [impliedOutcomes]
      split
      case isTrue himplies =>
        obtain ⟨implier, hknown, hsome⟩ := himplies
        exact ⟨_, hsome, implier, hknown, rfl⟩
      case isFalse => exact ih _

end Implies

/-! ## Where a technology is from -/

section Origins

variable {ruleset : FingerprintRuleset} {base detected : HashMap String TechInfo}

/-- The flag and the source of an entry. One that is only implied has these. -/
def origin (info : Option TechInfo) : Bool × DetectionSource :=
  info.elim (true, .implied) fun info => (info.isImplied, info.source)

/-- The names of the first map are still there, and every entry has the flag and the source that it
had there. -/
structure OriginsKept (base detected : HashMap String TechInfo) : Prop where
  subset : names base ⊆ names detected
  origin : ∀ {name info}, detected.lookup name = some info →
    (info.isImplied, info.source) = origin (base.lookup name)

/-- Every map keeps its own origins. -/
theorem OriginsKept.refl (base : HashMap String TechInfo) : OriginsKept base base where
  subset := Finset.Subset.refl _
  origin hlookup := by rw [hlookup]; rfl

/-- An entry may be written if it keeps its origin. -/
theorem OriginsKept.write (hkept : OriginsKept base detected) {name : String} {info : TechInfo}
    (hinfo : (info.isImplied, info.source) = Fingerprint.origin (base.lookup name)) :
    OriginsKept base (detected.insert name info) where
  subset := hkept.subset.trans (by rw [names_insert]; exact Finset.subset_insert _ _)
  origin {other found} hlookup := by
    rcases lookup_insert_inv hlookup with ⟨rfl, rfl⟩ | ⟨-, hbefore⟩
    · exact hinfo
    · exact hkept.origin hbefore

/-- An implication keeps the origins. -/
theorem OriginsKept.addImplied {state : HashMap String TechInfo × Bool}
    (hkept : OriginsKept base state.1) (implied : String × Option String) :
    OriginsKept base (addImplied ruleset state implied).1 := by
  unfold Fingerprint.addImplied
  by_cases hruleset : implied.1 ∈ ruleset.technologies
  · cases hlookup : state.1.lookup implied.1 with
    | none =>
        -- A name that is new was not in the first map.
        have hnew : base.lookup implied.1 = none := by
          rw [AList.lookup_eq_none]
          intro hmem
          exact AList.lookup_eq_none.mp hlookup
            (mem_names.mp (hkept.subset (mem_names.mpr hmem)))
        simpa [hruleset, hlookup] using hkept.write (by rw [hnew]; rfl)
    | some existing =>
        have hsame := hkept.origin hlookup
        simpa [hruleset, hlookup] using hkept.write (by simpa using hsame)
  · simpa [hruleset] using hkept

/-- The expansion keeps the origins. -/
theorem originsKept_expandImplies (order : HashOrder) (base : HashMap String TechInfo) :
    OriginsKept base (expandImplies ruleset order base) := by
  refine Rounds.loop_induction (motive := OriginsKept base) (fun state hstate => ?_)
    maxImpliesDepth (OriginsKept.refl base)
  unfold impliesRound
  generalize (order.keys state).flatMap (impliedBy ruleset) = references
  suffices h : ∀ pair : HashMap String TechInfo × Bool, OriginsKept base pair.1 →
      OriginsKept base (references.foldl (addImplied ruleset) pair).1 from h (state, false) hstate
  induction references with
  | nil => exact fun _ h => h
  | cons implied rest ih => exact fun pair h => ih _ (h.addImplied implied)

end Origins

end DomainStatus.Fingerprint
