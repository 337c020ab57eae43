import Mathlib.Data.List.AList
import Mathlib.Data.Set.Basic

/-!
# First answers in an open order

A search that goes through a hash map and ends with the first answer depends on the order of the
map. `outcomes` are the results that some order gives. Several searches in a row, of which each is
only needed when the ones before it have no answer, agree in all orders exactly when they are
`Settled`. Read `exists_settled_iff` first.
-/

namespace AnyOrder

section Outcomes

variable {α β : Type*} {f : α → Option β} {items others : List α}

/-- The results of a search for the first answer when the order of the items is open. -/
def outcomes (f : α → Option β) (items : List α) : Set (Option β) :=
  {answer | match answer with
    | some found => ∃ x ∈ items, f x = some found
    | none => ∀ x ∈ items, f x = none}

/-- Any element with a result may be the first one. -/
theorem some_mem_outcomes {found : β} :
    some found ∈ outcomes f items ↔ ∃ x ∈ items, f x = some found :=
  Iff.rfl

/-- No order finds anything exactly if no element has a result. -/
theorem none_mem_outcomes : none ∈ outcomes f items ↔ ∀ x ∈ items, f x = none :=
  Iff.rfl

/-- The first element comes before the others. -/
theorem findSome?_cons_eq_or (f : α → Option β) (x : α) (rest : List α) :
    (x :: rest).findSome? f = (f x).or (rest.findSome? f) := by
  cases hx : f x <;> simp [hx]

/-- A search through joined lists is a search for a list. -/
theorem findSome?_flatMap {γ : Type*} (f : α → Option β) (g : γ → List α) (xs : List γ) :
    (xs.flatMap g).findSome? f = xs.findSome? fun x => (g x).findSome? f := by
  induction xs with
  | nil => rfl
  | cons x rest ih =>
      rw [List.flatMap_cons, List.findSome?_append, ih, findSome?_cons_eq_or]

/-- The outcomes do not depend on the order that is given. -/
theorem outcomes_perm (hperm : others.Perm items) : outcomes f others = outcomes f items := by
  ext answer
  cases answer with
  | none => simp only [none_mem_outcomes, hperm.mem_iff]
  | some found => simp only [some_mem_outcomes, hperm.mem_iff]

/-- Every order gives one of the outcomes. -/
theorem findSome?_mem_outcomes (hperm : others.Perm items) :
    others.findSome? f ∈ outcomes f items := by
  rw [← outcomes_perm hperm]
  cases hfirst : others.findSome? f with
  | none => exact List.findSome?_eq_none_iff.mp hfirst
  | some found => exact List.exists_of_findSome?_eq_some hfirst

/-- There is always an outcome. -/
theorem outcomes_nonempty (f : α → Option β) (items : List α) : (outcomes f items).Nonempty :=
  ⟨_, findSome?_mem_outcomes (List.Perm.refl items)⟩

/-- Where no item has an answer, there is only one outcome. -/
theorem eq_none_of_mem_outcomes (hnone : none ∈ outcomes f items) {answer : Option β}
    (hanswer : answer ∈ outcomes f items) : answer = none := by
  cases answer with
  | none => rfl
  | some found =>
      obtain ⟨x, hx, hfound⟩ := hanswer
      rw [hnone x hx] at hfound
      cases hfound

/-- The outcomes for images are those of the composed function. -/
theorem outcomes_map {γ : Type*} (g : γ → α) (xs : List γ) :
    outcomes f (xs.map g) = outcomes (fun x => f (g x)) xs := by
  ext answer
  cases answer with
  | none => simp [none_mem_outcomes]
  | some found => simp [some_mem_outcomes]

end Outcomes

section Front

variable {κ ν : Type*} [DecidableEq κ] {key : κ} {map : AList fun _ : κ => ν}

/-- The map with the entry of one key in front. -/
def front (key : κ) (map : AList fun _ : κ => ν) : AList fun _ : κ => ν :=
  match map.lookup key with
  | some value => map.insert key value
  | none => map

/-- The entry of the key comes first, and the others stay in their order. -/
theorem entries_front {value : ν} (hlookup : map.lookup key = some value) :
    (front key map).entries = ⟨key, value⟩ :: map.entries.kerase key := by
  simp [front, hlookup]

/-- The key comes first. -/
theorem keys_front (hkey : key ∈ map.keys) : ∃ rest, (front key map).keys = key :: rest := by
  obtain ⟨value, hvalue⟩ := Option.isSome_iff_exists.mp (AList.lookup_isSome.mpr hkey)
  exact ⟨(map.entries.kerase key).keys, congrArg List.keys (entries_front hvalue)⟩

/-- The same entries are found. -/
theorem lookup_front (key : κ) (map : AList fun _ : κ => ν) (other : κ) :
    (front key map).lookup other = map.lookup other := by
  unfold front
  cases hlookup : map.lookup key with
  | none => rfl
  | some value =>
      by_cases hother : other = key
      · rw [hother, AList.lookup_insert, hlookup]
      · exact AList.lookup_insert_ne hother

/-- Only the order changes. -/
theorem front_perm (key : κ) (map : AList fun _ : κ => ν) :
    (front key map).entries.Perm map.entries := by
  refine List.lookup_ext (front key map).nodupKeys map.nodupKeys fun other value => ?_
  exact Eq.to_iff (congrArg (value ∈ ·) (lookup_front key map other))

/-- Every outcome is that of the order with the right entry in front. -/
theorem exists_front_findSome? [Inhabited κ] {β : Type*} {f : (Sigma fun _ : κ => ν) → Option β}
    {answer : Option β} (hanswer : answer ∈ outcomes f map.entries) :
    ∃ key, (front key map).entries.findSome? f = answer := by
  cases answer with
  | none =>
      refine ⟨default, List.findSome?_eq_none_iff.mpr fun entry hentry => ?_⟩
      exact hanswer entry ((front_perm default map).mem_iff.mp hentry)
  | some found =>
      obtain ⟨entry, hentry, hfound⟩ := hanswer
      refine ⟨entry.1, ?_⟩
      rw [entries_front (AList.mem_lookup_iff.mpr hentry)]
      exact List.findSome?_cons_of_isSome (by simp [hfound]) |>.trans hfound

/-- Each outcome is that of the order in which some key comes first. -/
theorem exists_front_keys_findSome? [Inhabited κ] {β : Type*} {f : κ → Option β}
    {answer : Option β} (hanswer : answer ∈ outcomes f map.keys) :
    ∃ key, (front key map).keys.findSome? f = answer := by
  rw [AList.keys, List.keys, outcomes_map] at hanswer
  obtain ⟨key, hkey⟩ := exists_front_findSome? hanswer
  refine ⟨key, ?_⟩
  rw [AList.keys, List.keys, List.findSome?_map]
  exact hkey

end Front

section Settled

variable {α : Type*}

/-- The stages end with this answer whatever each of them gives: every answer that a stage can give
is this one, up to the first stage that always has an answer. -/
def Settled (answer : Option α) : List (Set (Option α)) → Prop
  | [] => answer = none
  | stage :: later =>
      (∀ found, some found ∈ stage → answer = some found) ∧ (none ∈ stage → Settled answer later)

/-- Settled stages end with their answer. -/
theorem Settled.findSome?_eq {answer : Option α} {stages : List (Set (Option α))}
    (hsettled : Settled answer stages) {picks : List (Option α)}
    (hpicks : List.Forall₂ (· ∈ ·) picks stages) : picks.findSome? id = answer := by
  induction hpicks with
  | nil => exact Eq.symm hsettled
  | @cons pick stage picks later hpick _ ih =>
      cases pick with
      | none => exact ih (hsettled.2 hpick)
      | some found => exact (hsettled.1 found hpick).symm

/-- From each of some stages an outcome can be picked. -/
theorem exists_picks {stages : List (Set (Option α))} (hne : ∀ stage ∈ stages, stage.Nonempty) :
    ∃ picks, List.Forall₂ (· ∈ ·) picks stages := by
  induction stages with
  | nil => exact ⟨[], .nil⟩
  | cons stage later ih =>
      obtain ⟨pick, hpick⟩ := hne stage (List.mem_cons_self ..)
      obtain ⟨picks, hpicks⟩ := ih fun other hother => hne other (List.mem_cons_of_mem _ hother)
      exact ⟨pick :: picks, .cons hpick hpicks⟩

/-- The stages are settled exactly when everything they can give ends with the same answer. -/
theorem exists_settled_iff {stages : List (Set (Option α))}
    (hne : ∀ stage ∈ stages, stage.Nonempty) :
    (∃ answer, Settled answer stages) ↔
      ∀ left right, List.Forall₂ (· ∈ ·) left stages → List.Forall₂ (· ∈ ·) right stages →
        left.findSome? id = right.findSome? id := by
  constructor
  · intro h
    obtain ⟨answer, hsettled⟩ := h
    intro left right hleft hright
    rw [hsettled.findSome?_eq hleft, hsettled.findSome?_eq hright]
  · intro hagree
    induction stages with
    | nil => exact ⟨none, rfl⟩
    | cons stage later ih =>
        have hlater := fun other hother => hne other (List.mem_cons_of_mem stage hother)
        obtain ⟨picks, hpicks⟩ := exists_picks hlater
        by_cases hnone : none ∈ stage
        · obtain ⟨answer, hsettled⟩ := ih hlater fun left right hleft hright =>
            hagree (none :: left) (none :: right) (.cons hnone hleft) (.cons hnone hright)
          refine ⟨answer, fun found hfound => ?_, fun _ => hsettled⟩
          -- An answer of this stage is compared with what follows when it has none.
          have hsame := hagree (some found :: picks) (none :: picks) (.cons hfound hpicks)
            (.cons hnone hpicks)
          rw [← hsettled.findSome?_eq hpicks]
          exact hsame.symm
        · obtain ⟨pick, hpick⟩ := hne stage (List.mem_cons_self ..)
          cases pick with
          | none => exact absurd hpick hnone
          | some first =>
              refine ⟨some first, fun found hfound => ?_, fun h => absurd h hnone⟩
              exact hagree (some first :: picks) (some found :: picks) (.cons hpick hpicks)
                (.cons hfound hpicks)

end Settled

end AnyOrder
