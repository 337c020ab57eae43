import Mathlib.Data.List.Basic

/-!
# Lists with keys

A list in which an element takes the place of the first one with its key, or comes behind the
others, and in which the first element with a key can be changed. Read `ofKey_putAll` and
`ofKey_changeAll` first: what stands for a key after many such steps.
-/

namespace Keyed

variable {α κ : Type*} [DecidableEq κ] (key : α → κ)

/-- The elements with a key. -/
def ofKey (k : κ) (list : List α) : List α :=
  list.filter (key · = k)

/-- Puts an element in the place of the first one with its key. -/
def put (list : List α) (new : α) : List α :=
  match list.findIdx? (key · = key new) with
  | some index => list.set index new
  | none => list ++ [new]

/-- Changes the first element with a key. -/
def changeFirst (k : κ) (change : α → α) (list : List α) : List α :=
  match list.findIdx? (key · = k) with
  | some index => list.modify index change
  | none => list

variable {key} {k : κ} {list : List α} {new : α} {change : α → α}

/-- The elements of a key are those that have it. -/
theorem mem_ofKey {element : α} :
    element ∈ ofKey key k list ↔ element ∈ list ∧ key element = k := by
  rw [ofKey, List.mem_filter, decide_eq_true_eq]

/-- The first element counts if it has the key. -/
theorem ofKey_cons (element : α) (list : List α) : ofKey key k (element :: list) =
    if key element = k then element :: ofKey key k list else ofKey key k list := by
  rw [ofKey, List.filter_cons]
  simp only [decide_eq_true_eq]
  rfl

/-- The elements of a key in two lists. -/
theorem ofKey_append (list others : List α) :
    ofKey key k (list ++ others) = ofKey key k list ++ ofKey key k others :=
  List.filter_append ..

/-- A key that no element has. -/
theorem ofKey_eq_nil (h : ∀ element ∈ list, key element ≠ k) : ofKey key k list = [] := by
  rw [ofKey, List.filter_eq_nil_iff]
  exact fun element helement => by simpa using h element helement

variable (key) in
/-- Either no element has the key, or the list splits at the first one that has it. -/
theorem findIdx_cases (k : κ) (list : List α) :
    (list.findIdx? (key · = k) = none ∧ ofKey key k list = []) ∨
      ∃ front element back, list = front ++ element :: back ∧ key element = k ∧
        ofKey key k front = [] ∧ list.findIdx? (key · = k) = some front.length := by
  induction list with
  | nil => exact .inl ⟨rfl, rfl⟩
  | cons first rest ih =>
      by_cases hfirst : key first = k
      · refine .inr ⟨[], first, rest, rfl, hfirst, rfl, ?_⟩
        rw [List.findIdx?_cons, if_pos (decide_eq_true hfirst), List.length_nil]
      · have hskip : ¬decide (key first = k) = true := fun h => hfirst (of_decide_eq_true h)
        rw [List.findIdx?_cons, if_neg hskip]
        obtain ⟨hnone, hrest⟩ | ⟨front, element, back, rfl, helement, hfront, hsome⟩ := ih
        · left
          rw [hnone, ofKey_cons, if_neg hfirst]
          exact ⟨rfl, hrest⟩
        · right
          refine ⟨first :: front, element, back, rfl, helement, ?_, ?_⟩
          · rwa [ofKey_cons, if_neg hfirst]
          · rw [hsome]
            rfl

/-! ## Putting -/

/-- An element that is put stands in the place of the one with its key. -/
theorem ofKey_put (list : List α) (new : α) (k : κ) :
    ofKey key k (put key list new) =
      if key new = k then new :: (ofKey key k list).tail else ofKey key k list := by
  unfold put
  obtain ⟨hnone, hlist⟩ | ⟨front, element, back, rfl, helement, hfront, hsome⟩ :=
    findIdx_cases key (key new) list
  · rw [hnone]
    show ofKey key k (list ++ [new]) = _
    rw [ofKey_append, ofKey_cons]
    split_ifs with hkey
    · subst hkey
      rw [hlist]
      rfl
    · exact List.append_nil _
  · rw [hsome]
    show ofKey key k ((front ++ element :: back).set front.length new) = _
    rw [List.set_append_right _ _ (Nat.le_refl _), Nat.sub_self, List.set_cons_zero,
      ofKey_append, ofKey_append, ofKey_cons, ofKey_cons]
    split_ifs with hkey hother hother
    · subst hkey
      rw [hfront]
      rfl
    · exact absurd (helement.trans hkey) hother
    · exact absurd (helement.symm.trans hother) hkey
    · rfl

/-- The last element that was put stands in the place of the first one that there was. -/
theorem ofKey_putAll (k : κ) (news list : List α) :
    ofKey key k (news.foldl (put key) list) =
      match (ofKey key k news).getLast? with
      | none => ofKey key k list
      | some new => new :: (ofKey key k list).tail := by
  induction news generalizing list with
  | nil => rfl
  | cons first rest ih =>
      rw [List.foldl_cons, ih, ofKey_put, ofKey_cons]
      split_ifs with hfirst
      · rw [List.getLast?_cons]
        cases (ofKey key k rest).getLast? <;> rfl
      · rfl

/-- What holds of a new element and of the others holds of all. -/
theorem forall_put {P : α → Prop} (hnew : P new) (hlist : ∀ element ∈ list, P element) :
    ∀ element ∈ put key list new, P element := by
  unfold put
  intro element helement
  split at helement
  · rcases List.mem_or_eq_of_mem_set helement with h | rfl
    · exact hlist element h
    · exact hnew
  · rcases List.mem_append.mp helement with h | h
    · exact hlist element h
    · exact List.mem_singleton.mp h ▸ hnew

/-! ## Changes -/

/-- A change of the first element of a key concerns that key only. -/
theorem ofKey_changeFirst (hkeep : ∀ element, key (change element) = key element)
    (list : List α) (k other : κ) :
    ofKey key k (changeFirst key other change list) =
      if other = k then (ofKey key k list).modifyHead change else ofKey key k list := by
  unfold changeFirst
  obtain ⟨hnone, hlist⟩ | ⟨front, element, back, rfl, helement, hfront, hsome⟩ :=
    findIdx_cases key other list
  · rw [hnone]
    split_ifs with hkey
    · subst hkey
      show ofKey key other list = _
      rw [hlist]
      rfl
    · rfl
  · rw [hsome]
    show ofKey key k ((front ++ element :: back).modify front.length change) = _
    have hmodify : (front ++ element :: back).modify front.length change =
        front ++ change element :: back := by
      rw [List.modify_eq_take_drop, List.take_left, List.drop_left]
      rfl
    rw [hmodify, ofKey_append, ofKey_append, ofKey_cons, ofKey_cons, hkeep, helement]
    split_ifs with hkey
    · subst hkey
      rw [hfront]
      rfl
    · rfl

/-- What a change keeps is kept in the whole list. -/
theorem map_changeFirst {β : Type*} {read : α → β}
    (hread : ∀ element, read (change element) = read element) (k : κ) (list : List α) :
    (changeFirst key k change list).map read = list.map read := by
  unfold changeFirst
  obtain ⟨hnone, -⟩ | ⟨front, old, back, rfl, -, -, hsome⟩ := findIdx_cases key k list
  · rw [hnone]
  · rw [hsome]
    show ((front ++ old :: back).modify front.length change).map read = _
    rw [List.modify_eq_take_drop, List.take_left, List.drop_left, List.map_append, List.map_append]
    show front.map read ++ read (change old) :: back.map read = _
    rw [hread]
    rfl

/-- What a change keeps holds of all elements. -/
theorem forall_changeFirst {P : α → Prop} (hchange : ∀ element, P element → P (change element))
    (hlist : ∀ element ∈ list, P element) :
    ∀ element ∈ changeFirst key k change list, P element := by
  unfold changeFirst
  obtain ⟨hnone, -⟩ | ⟨front, old, back, rfl, -, -, hsome⟩ := findIdx_cases key k list
  · rw [hnone]
    exact hlist
  · rw [hsome]
    show ∀ element ∈ (front ++ old :: back).modify front.length change, P element
    rw [List.modify_eq_take_drop, List.take_left, List.drop_left]
    intro element helement
    rcases List.mem_append.mp helement with h | h
    · exact hlist element (List.mem_append_left _ h)
    · rcases List.mem_cons.mp h with rfl | h
      · exact hchange old (hlist old (List.mem_append_right _ List.mem_cons_self))
      · exact hlist element (List.mem_append_right _ (List.mem_cons_of_mem _ h))

variable (key) in
/-- The first element with a key goes through all changes that are made for the key. -/
theorem ofKey_changeAll {ι : Type*} (keyOf : ι → κ) (changeOf : ι → α → α)
    (hkeep : ∀ index element, key (changeOf index element) = key element) (k : κ)
    (changes : List ι) (list : List α) :
    ofKey key k (changes.foldl
        (fun list index => changeFirst key (keyOf index) (changeOf index) list) list) =
      (ofKey key k list).modifyHead fun element =>
        (changes.filter (keyOf · = k)).foldl (fun element index => changeOf index element)
          element := by
  induction changes generalizing list with
  | nil =>
      rw [List.foldl_nil, List.filter_nil]
      cases ofKey key k list <;> rfl
  | cons first rest ih =>
      rw [List.foldl_cons, ih, ofKey_changeFirst (hkeep first), List.filter_cons]
      simp only [decide_eq_true_eq]
      split_ifs
      · rw [List.modifyHead_modifyHead]
        rfl
      · rfl

end Keyed
