import Mathlib.Data.List.Induction
import Mathlib.Data.List.Nodup
import Mathlib.Data.List.TakeDrop

/-!
# First occurrences

The distinct elements of a list in the order of their first occurrence, `List.eraseDups`, and the
loop that keeps an element when its key was not seen before. Read `map_unseen` and
`unseen_keys_iff` first: the keys of such a loop, and when keys that nobody wants do no harm to
them.
-/

namespace Distinct

section EraseDups

variable {α : Type*} [BEq α] [LawfulBEq α] {list : List α} {element : α}

/-- A last element is kept if it is new. -/
theorem eraseDups_concat (list : List α) (element : α) :
    (list ++ [element]).eraseDups =
      if element ∈ list then list.eraseDups else list.eraseDups ++ [element] := by
  rw [List.eraseDups_append]
  by_cases h : element ∈ list <;> simp [List.removeAll, h, List.eraseDups_cons]

/-- No element is left twice. -/
theorem nodup_eraseDups (list : List α) : list.eraseDups.Nodup := by
  induction list using List.reverseRecOn with
  | nil => exact List.nodup_nil
  | append_singleton list element ih =>
      rw [eraseDups_concat]
      split_ifs with h
      · exact ih
      · rw [List.nodup_append]
        refine ⟨ih, List.nodup_singleton element, ?_⟩
        rintro other hother _ hlast rfl
        rw [List.mem_singleton] at hlast
        exact h (List.mem_eraseDups.mp (hlast ▸ hother))

/-- Where nothing is twice, nothing is dropped. -/
theorem eraseDups_eq_self (h : list.Nodup) : list.eraseDups = list := by
  induction list using List.reverseRecOn with
  | nil => rfl
  | append_singleton list element ih =>
      rw [List.nodup_append] at h
      have hnew : element ∉ list := fun hmem =>
        h.2.2 element hmem element (List.mem_singleton_self element) rfl
      rw [eraseDups_concat, if_neg hnew, ih h.1]

/-- The list does not get longer. -/
theorem length_eraseDups_le (list : List α) : list.eraseDups.length ≤ list.length := by
  induction list using List.reverseRecOn with
  | nil => exact Nat.le_refl 0
  | append_singleton list element ih =>
      rw [eraseDups_concat, List.length_append, List.length_singleton]
      split_ifs
      · omega
      · rw [List.length_append, List.length_singleton]
        omega

/-- As many distinct elements as elements: none is repeated. -/
theorem length_eraseDups_eq_iff : list.eraseDups.length = list.length ↔ list.Nodup := by
  refine ⟨fun h => ?_, fun h => by rw [eraseDups_eq_self h]⟩
  induction list using List.reverseRecOn with
  | nil => exact List.nodup_nil
  | append_singleton list element ih =>
      have hle := length_eraseDups_le list
      rw [eraseDups_concat, List.length_append, List.length_singleton] at h
      split_ifs at h with hmem
      · omega
      · rw [List.length_append, List.length_singleton] at h
        rw [List.nodup_append]
        refine ⟨ih (by omega), List.nodup_singleton element, ?_⟩
        rintro other hother _ hlast rfl
        rw [List.mem_singleton] at hlast
        exact hmem (hlast ▸ hother)

/-- An element that was seen is dropped. -/
theorem eraseDups_append_cons {seen : List α} (h : element ∈ seen) :
    (seen ++ element :: list).eraseDups = (seen ++ list).eraseDups := by
  rw [List.eraseDups_append, List.eraseDups_append]
  simp [List.removeAll, h]

/-- A start without repetitions is the start of the distinct elements. -/
theorem take_eraseDups {count : ℕ} (h : (list.take count).Nodup) :
    list.eraseDups.take count = list.take count := by
  by_cases hcount : count ≤ list.length
  · conv_lhs => rw [← List.take_append_drop count list, List.eraseDups_append, eraseDups_eq_self h]
    have hlength : (list.take count).length = count := List.length_take_of_le hcount
    rw [List.take_append_of_le_length (by omega), List.take_take, Nat.min_self]
  · have hall : list.take count = list := List.take_of_length_le (by omega)
    rw [hall] at h
    rw [eraseDups_eq_self h]

end EraseDups

section Unseen

variable {α κ : Type*} [DecidableEq κ] (key : α → κ)

/-- The elements whose key no earlier element has. -/
@[grind =] def unseen (seen : List κ) : List α → List α
  | [] => []
  | element :: rest =>
      if key element ∈ seen then unseen seen rest
      else element :: unseen (seen ++ [key element]) rest

/-- What is kept was in the list. -/
theorem mem_of_mem_unseen {seen : List κ} {list : List α} {element : α}
    (h : element ∈ unseen key seen list) : element ∈ list := by
  induction list generalizing seen with
  | nil => exact h
  | cons first rest ih =>
      rw [unseen] at h
      split_ifs at h
      · exact List.mem_cons_of_mem _ (ih h)
      · rcases List.mem_cons.mp h with rfl | h
        · exact List.mem_cons_self
        · exact List.mem_cons_of_mem _ (ih h)

/-- The keys of the elements that are kept are the distinct ones. -/
theorem map_unseen [BEq κ] [LawfulBEq κ] (seen : List κ) (list : List α) :
    seen.eraseDups ++ (unseen key seen list).map key = (seen ++ list.map key).eraseDups := by
  induction list generalizing seen with
  | nil => simp [unseen]
  | cons first rest ih =>
      rw [unseen, List.map_cons]
      split_ifs with h
      · rw [ih, eraseDups_append_cons h]
      · have hstep := ih (seen ++ [key first])
        rw [eraseDups_concat, if_neg h, List.append_assoc, List.append_assoc] at hstep
        exact hstep

/-- Only what was seen counts, not how often or in which order. -/
theorem unseen_congr {seen other : List κ} (h : ∀ k, k ∈ seen ↔ k ∈ other) (list : List α) :
    unseen key seen list = unseen key other list := by
  induction list generalizing seen other with
  | nil => rfl
  | cons first rest ih =>
      rw [unseen, unseen, ih h]
      have hstep : ∀ k, k ∈ seen ++ [key first] ↔ k ∈ other ++ [key first] := fun k => by
        rw [List.mem_append, List.mem_append, h k]
      rw [ih hstep]
      by_cases hmem : key first ∈ seen
      · rw [if_pos hmem, if_pos ((h _).mp hmem)]
      · rw [if_neg hmem, if_neg fun hother => hmem ((h _).mpr hother)]

/-- The first one kept is the first with a new key. -/
theorem head_unseen (seen : List κ) (list : List α) :
    (unseen key seen list).head? = list.find? (key · ∉ seen) := by
  induction list with
  | nil => rfl
  | cons first rest ih =>
      rw [unseen, List.find?_cons]
      by_cases hmem : key first ∈ seen
      · rw [if_pos hmem, ih]
        simp [hmem]
      · rw [if_neg hmem]
        simp [hmem]

/-- Behind it, its key is an old one. -/
theorem unseen_of_find {seen : List κ} {list : List α} {element : α}
    (h : list.find? (key · ∉ seen) = some element) :
    unseen key seen list = element :: unseen key (seen ++ [key element]) list := by
  induction list with
  | nil => cases h
  | cons first rest ih =>
      rw [List.find?_cons] at h
      by_cases hmem : key first ∈ seen
      · simp only [hmem, not_true_eq_false, decide_false] at h
        rw [unseen, if_pos hmem, unseen, if_pos (List.mem_append_left _ hmem)]
        exact ih h
      · simp only [hmem, not_false_eq_true, decide_true, Option.some.injEq] at h
        subst h
        rw [unseen, if_neg hmem, unseen,
          if_pos (List.mem_append_right _ (List.mem_singleton_self _))]

/-- The second list is read with the keys of the first one seen. -/
theorem unseen_append (seen : List κ) (list others : List α) :
    unseen key seen (list ++ others) =
      unseen key seen list ++ unseen key (seen ++ (unseen key seen list).map key) others := by
  induction list generalizing seen with
  | nil => rw [List.nil_append, unseen, List.nil_append, List.map_nil, List.append_nil]
  | cons first rest ih =>
      rw [List.cons_append, unseen, unseen]
      split_ifs with hmem
      · exact ih seen
      · rw [ih, List.map_cons, List.append_assoc, List.singleton_append, List.cons_append]

/-- The keys that are kept are new, and each is kept once. -/
theorem nodup_unseen (seen : List κ) (list : List α) :
    ((unseen key seen list).map key).Nodup ∧ ∀ k ∈ (unseen key seen list).map key, k ∉ seen := by
  induction list generalizing seen with
  | nil => exact ⟨List.nodup_nil, fun k hk => absurd hk List.not_mem_nil⟩
  | cons first rest ih =>
      rw [unseen]
      split_ifs with hmem
      · exact ih seen
      · obtain ⟨hnodup, hnew⟩ := ih (seen ++ [key first])
        simp only [List.mem_append, List.mem_singleton, not_or] at hnew
        rw [List.map_cons, List.nodup_cons]
        refine ⟨⟨fun h => (hnew _ h).2 rfl, hnodup⟩, fun k hk => ?_⟩
        rcases List.mem_cons.mp hk with rfl | hk
        · exact hmem
        · exact (hnew k hk).1

/-- A key that no element has may be seen or not. -/
theorem unseen_of_ne {seen : List κ} {k : κ} {list : List α}
    (h : ∀ element ∈ list, key element ≠ k) :
    unseen key (seen ++ [k]) list = unseen key seen list := by
  induction list generalizing seen with
  | nil => rfl
  | cons first rest ih =>
      have hfirst : key first ≠ k := h first List.mem_cons_self
      have hrest : ∀ element ∈ rest, key element ≠ k := fun element helement =>
        h element (List.mem_cons_of_mem _ helement)
      have hswap : ∀ other, other ∈ seen ++ [k] ++ [key first] ↔
          other ∈ seen ++ [key first] ++ [k] := fun other => by
        simp only [List.mem_append, List.mem_singleton, or_right_comm]
      have hseen : key first ∈ seen ++ [k] ↔ key first ∈ seen := by
        simp only [List.mem_append, List.mem_singleton, hfirst, or_false]
      rw [unseen, unseen, ih hrest, unseen_congr key hswap, ih hrest]
      simp only [hseen]

/-- The elements with some of the keys do not depend on those with others. -/
theorem filter_unseen (keep : κ → Bool) (seen : List κ) (list : List α) :
    (unseen key seen list).filter (fun element => keep (key element)) =
      unseen key seen (list.filter fun element => keep (key element)) := by
  induction list generalizing seen with
  | nil => rfl
  | cons first rest ih =>
      rw [unseen, List.filter_cons]
      cases hkeep : keep (key first) with
      | true =>
          rw [if_pos rfl, unseen]
          split_ifs
          · exact ih seen
          · rw [List.filter_cons, hkeep, if_pos rfl, ih]
      | false =>
          rw [if_neg Bool.false_ne_true]
          split_ifs
          · exact ih seen
          · rw [List.filter_cons, hkeep, if_neg Bool.false_ne_true, ih]
            refine unseen_of_ne key fun element helement heq => ?_
            have hkept := (List.mem_filter.mp helement).2
            rw [heq, hkeep] at hkept
            exact Bool.false_ne_true hkept

end Unseen

section Wanted

variable {α κ : Type*}

/-- The keys that are wanted, of a list that marks them. -/
def wantedKeys (list : List (Bool × κ)) : List κ :=
  (list.filter Prod.fst).map Prod.snd

/-- The wanted keys of joined lists. -/
theorem wantedKeys_flatMap (list : List α) (entries : α → List (Bool × κ)) :
    wantedKeys (list.flatMap entries) =
      list.flatMap fun element => wantedKeys (entries element) := by
  rw [wantedKeys, List.filter_flatMap, List.map_flatMap]
  rfl

/-- A list of nothing that is wanted. -/
theorem wantedKeys_eq_nil {list : List (Bool × κ)} (h : ∀ entry ∈ list, entry.1 = false) :
    wantedKeys list = [] := by
  rw [wantedKeys, List.filter_eq_nil_iff.mpr fun entry hentry => by simp [h entry hentry],
    List.map_nil]

variable [DecidableEq κ]

/-- A key that is not wanted was seen before, or it is the next new one of those that are wanted. -/
def Foreseen (seen : List κ) : List (Bool × κ) → Prop
  | [] => True
  | (wanted, key) :: rest =>
      (wanted = false → key ∉ seen → (wantedKeys rest).find? (· ∉ seen) = some key) ∧
        Foreseen (seen ++ [key]) rest

instance decidableForeseen (seen : List κ) (list : List (Bool × κ)) :
    Decidable (Foreseen seen list) :=
  match list with
  | [] => isTrue trivial
  | (_, key) :: rest => @instDecidableAnd _ _ inferInstance (decidableForeseen (seen ++ [key]) rest)

/-- The wanted keys alone give the same new keys exactly if the others are foreseen. -/
theorem unseen_keys_iff (seen : List κ) (list : List (Bool × κ)) :
    unseen id seen (list.map Prod.snd) = unseen id seen (wantedKeys list) ↔ Foreseen seen list := by
  induction list generalizing seen with
  | nil => exact iff_of_true rfl trivial
  | cons first rest ih =>
      obtain ⟨wanted, key⟩ := first
      rw [List.map_cons, Foreseen, ← ih, unseen, id_eq]
      by_cases hmem : key ∈ seen
      · -- Nothing is new, and `key` may as well be seen once more.
        have hsame : ∀ k, k ∈ seen ↔ k ∈ seen ++ [key] := fun k => by
          rw [List.mem_append, List.mem_singleton]
          exact ⟨Or.inl, fun h => h.elim id fun hk => hk ▸ hmem⟩
        have hwanted : unseen id seen (wantedKeys ((wanted, key) :: rest)) =
            unseen id seen (wantedKeys rest) := by
          cases wanted with
          | false => rfl
          | true =>
              show unseen id seen (key :: wantedKeys rest) = _
              rw [unseen, id_eq, if_pos hmem]
        rw [if_pos hmem, hwanted, unseen_congr id hsame, unseen_congr id hsame (wantedKeys rest)]
        exact ⟨fun h => ⟨fun _ hnew => absurd hmem hnew, h⟩, fun h => h.2⟩
      · rw [if_neg hmem]
        cases wanted with
        | true =>
            show _ = unseen id seen (key :: wantedKeys rest) ↔ _
            rw [unseen, id_eq, if_neg hmem, List.cons_inj_right]
            exact ⟨fun h => ⟨fun hfalse => (Bool.noConfusion hfalse), h⟩, fun h => h.2⟩
        | false =>
            show _ = unseen id seen (wantedKeys rest) ↔ _
            constructor
            · intro h
              have hnext : (wantedKeys rest).find? (· ∉ seen) = some key := by
                have hhead := head_unseen id seen (wantedKeys rest)
                rw [← h] at hhead
                exact hhead.symm
              refine ⟨fun _ _ => hnext, ?_⟩
              rw [unseen_of_find id hnext, List.cons_inj_right] at h
              exact h
            · intro h
              rw [unseen_of_find id (h.1 rfl hmem), h.2]
              rfl

/-- The distinct keys are those of the wanted ones exactly if every other key is foreseen. -/
theorem eraseDups_keys_iff [BEq κ] [LawfulBEq κ] (list : List (Bool × κ)) :
    (list.map Prod.snd).eraseDups = (wantedKeys list).eraseDups ↔ Foreseen [] list := by
  have hdistinct : ∀ keys : List κ, keys.eraseDups = unseen id [] keys := fun keys => by
    have h := map_unseen id [] keys
    rw [List.map_id, List.map_id] at h
    exact h.symm
  rw [hdistinct, hdistinct, unseen_keys_iff]

/-- Without other keys there is nothing to foresee. -/
theorem foreseen_of_wanted {seen : List κ} {list : List (Bool × κ)}
    (h : ∀ entry ∈ list, entry.1 = true) : Foreseen seen list := by
  induction list generalizing seen with
  | nil => trivial
  | cons first rest ih =>
      refine ⟨fun hfalse => ?_, ih fun entry hentry => h entry (List.mem_cons_of_mem _ hentry)⟩
      have htrue := h first List.mem_cons_self
      rw [hfalse] at htrue
      cases htrue

end Wanted

end Distinct
