import Mathlib.Algebra.Group.Nat.Defs
import Mathlib.Data.List.Lex
import Mathlib.Data.List.MinMax
import Mathlib.Logic.Relation

/-!
# Search for many needles at once

The iterators of the crate `aho-corasick` for the match kind `Standard`, without regard to ASCII
case. Both go through the text once. `find_iter` reports a needle as soon as one ends and starts
again behind it, so that matches never overlap. Which of several needles that end at one place it
reports is not documented and is a parameter. `find_overlapping_iter` reports every needle at every
place where it ends. Needles are not empty.
-/

/-- The choice among the needles that end at one place. -/
structure AhoCorasick where
  choose : List (List Char) → List ℕ → ℕ
  choose_mem : ∀ {needles ids}, ids ≠ [] → choose needles ids ∈ ids

namespace AhoCorasick

variable (aho : AhoCorasick) (needles : List (List Char))

/-- The needle ends where the text was read up to. The text is given backwards. -/
def endsHere (seen needle : List Char) : Bool :=
  (needle.reverse.map Char.toLower).isPrefixOf (seen.map Char.toLower)

/-- The numbers of the needles that end where the text was read up to. -/
def endingHere (seen : List Char) : List ℕ :=
  (List.range needles.length).filter fun id => (needles[id]?).any (endsHere seen)

/-- The search from a place in the text, with what was read since the last match. -/
def findFrom : List Char → List Char → List ℕ
  | _, [] => []
  | seen, c :: rest =>
      match endingHere needles (c :: seen) with
      | [] => findFrom (c :: seen) rest
      -- What was read before a match is forgotten.
      | id :: ids => aho.choose needles (id :: ids) :: findFrom [] rest

/-- The numbers of the needles that the search reports. -/
def findIter (text : List Char) : List ℕ :=
  findFrom aho needles [] text

/-- Every reported number is that of a needle. -/
theorem lt_of_mem_findIter {text : List Char} {id : ℕ} (hid : id ∈ findIter aho needles text) :
    id < needles.length := by
  suffices h : ∀ seen, id ∈ findFrom aho needles seen text → id < needles.length from h [] hid
  clear hid
  induction text with
  | nil => intro seen h; simp [findFrom] at h
  | cons c rest ih =>
      intro seen h
      rw [findFrom] at h
      cases hending : endingHere needles (c :: seen) with
      | nil =>
          rw [hending] at h
          dsimp only at h
          exact ih _ h
      | cons first others =>
          rw [hending] at h
          dsimp only at h
          rcases List.mem_cons.mp h with rfl | h
          · have hmem : aho.choose needles (first :: others) ∈ endingHere needles (c :: seen) := by
              rw [hending]
              exact aho.choose_mem (List.cons_ne_nil _ _)
            exact List.mem_range.mp (List.mem_of_mem_filter hmem)
          · exact ih _ h

/-! ## Overlapping matches -/

/-- The search for all matches from a place in the text, with what was read before. -/
def findOverlappingFrom : List Char → List Char → List ℕ
  | _, [] => []
  | seen, c :: rest => endingHere needles (c :: seen) ++ findOverlappingFrom (c :: seen) rest

/-- The numbers of the needles of all matches. -/
def findOverlappingIter (text : List Char) : List ℕ :=
  findOverlappingFrom needles [] text

/-- The needle occurs in the text, up to ASCII case. -/
def Occurs (text needle : List Char) : Prop :=
  needle.map Char.toLower <:+: text.map Char.toLower

instance (text needle : List Char) : Decidable (Occurs text needle) :=
  inferInstanceAs (Decidable (needle.map Char.toLower <:+: text.map Char.toLower))

/-- A needle ends where the text that was seen ends with it, up to ASCII case. -/
theorem endsHere_iff {seen needle : List Char} :
    endsHere seen needle = true ↔
      needle.map Char.toLower <:+ seen.reverse.map Char.toLower := by
  rw [endsHere, List.isPrefixOf_iff_prefix, ← List.reverse_prefix, List.map_reverse,
    List.map_reverse, List.reverse_reverse]

variable {needles}

/-- Which needles end at a place. -/
theorem mem_endingHere {seen : List Char} {id : ℕ} :
    id ∈ endingHere needles seen ↔
      ∃ needle, needles[id]? = some needle ∧ endsHere seen needle = true := by
  rw [endingHere, List.mem_filter, List.mem_range, Option.any_eq_true]
  constructor
  · intro h
    obtain ⟨-, needle, hneedle, hends⟩ := h
    exact ⟨needle, hneedle, hends⟩
  · intro h
    obtain ⟨needle, hneedle, hends⟩ := h
    exact ⟨(List.getElem?_eq_some_iff.mp hneedle).1, needle, hneedle, hends⟩

/-- A needle is reported from a place on when it ends behind that place. -/
theorem mem_findOverlappingFrom {seen text : List Char} {id : ℕ} :
    id ∈ findOverlappingFrom needles seen text ↔
      ∃ needle, needles[id]? = some needle ∧ ∃ read, read ≠ [] ∧ read <+: text ∧
        needle.map Char.toLower <:+ (seen.reverse ++ read).map Char.toLower := by
  induction text generalizing seen with
  | nil =>
      simp only [findOverlappingFrom, List.not_mem_nil, List.prefix_nil, false_iff]
      intro h
      obtain ⟨needle, -, read, hne, rfl, -⟩ := h
      exact hne rfl
  | cons c rest ih =>
      simp only [findOverlappingFrom, List.mem_append, mem_endingHere, ih, endsHere_iff,
        List.reverse_cons, List.append_assoc, List.singleton_append]
      constructor
      · intro h
        rcases h with ⟨needle, hneedle, hends⟩ | ⟨needle, hneedle, read, -, hread, hends⟩
        · exact ⟨needle, hneedle, [c], by simp, by simp, hends⟩
        · exact ⟨needle, hneedle, c :: read, by simp, by simpa using hread, hends⟩
      · intro h
        obtain ⟨needle, hneedle, read, hne, hread, hends⟩ := h
        cases read with
        | nil => exact absurd rfl hne
        | cons first read =>
            obtain ⟨rfl, htail⟩ := List.cons_prefix_cons.mp hread
            cases read with
            | nil => exact .inl ⟨needle, hneedle, hends⟩
            | cons second read =>
                exact .inr ⟨needle, hneedle, second :: read, by simp, htail, hends⟩

/-- The search reports the needles that occur. -/
theorem mem_findOverlappingIter {text : List Char} {id : ℕ}
    (hne : ∀ needle ∈ needles, needle ≠ []) :
    id ∈ findOverlappingIter needles text ↔
      ∃ needle, needles[id]? = some needle ∧ Occurs text needle := by
  rw [findOverlappingIter, mem_findOverlappingFrom]
  refine exists_congr fun needle => and_congr_right fun hneedle => ?_
  have hneedle := hne needle (List.mem_of_getElem? hneedle)
  simp only [List.reverse_nil, List.nil_append, Occurs]
  constructor
  · intro h
    obtain ⟨read, -, ⟨after, rfl⟩, hends⟩ := h
    rw [List.map_append]
    exact hends.isInfix.trans (List.prefix_append _ _).isInfix
  · intro h
    obtain ⟨before, after, htext⟩ := h
    -- The part of the text up to the end of the needle.
    obtain ⟨read, rest, rfl, hread, -⟩ := List.map_eq_append_iff.mp htext.symm
    refine ⟨read, ?_, List.prefix_append _ _, hread ▸ List.suffix_append _ _⟩
    rintro rfl
    simp at hread
    exact hneedle hread.2

/-! ## Needles in another order -/

/-- The number of patterns that the builder has ids for. It refuses to build from more. -/
def patternLimit : ℕ := 2 ^ 31 - 1

/-- The choice is one among the texts of the needles. Their numbers do not matter, since the states
of the automaton are texts. -/
def ByText (aho : AhoCorasick) : Prop :=
  ∀ (needles others : List (List Char)) (ids otherIds : List ℕ), ids ≠ [] →
    (ids.map (needles[·]?)).Perm (otherIds.map (others[·]?)) →
      needles[aho.choose needles ids]? = others[aho.choose others otherIds]?

/-- The needles that end at a place, by their texts. -/
theorem map_endingHere (needles : List (List Char)) (seen : List Char) :
    (endingHere needles seen).map (needles[·]?) = (needles.filter (endsHere seen)).map some := by
  have hrange : (List.range needles.length).map (needles[·]?) = needles.map some := by
    apply List.ext_getElem?
    intro id
    by_cases hid : id < needles.length <;> simp [hid]
  calc (endingHere needles seen).map (needles[·]?)
      = ((List.range needles.length).map (needles[·]?)).filter (Option.any (endsHere seen)) := by
        rw [List.filter_map]
        rfl
    _ = (needles.filter (endsHere seen)).map some := by
        rw [hrange, List.filter_map]
        rfl

/-- The texts that the search reports do not depend on the order of the needles. -/
theorem map_findFrom_eq (haho : aho.ByText) {others : List (List Char)}
    (hperm : needles.Perm others) (seen text : List Char) :
    (findFrom aho needles seen text).map (needles[·]?) =
      (findFrom aho others seen text).map (others[·]?) := by
  induction text generalizing seen with
  | nil => rfl
  | cons c rest ih =>
      have hends : ((endingHere needles (c :: seen)).map (needles[·]?)).Perm
          ((endingHere others (c :: seen)).map (others[·]?)) := by
        rw [map_endingHere, map_endingHere]
        exact (hperm.filter _).map _
      rw [findFrom, findFrom]
      cases hleft : endingHere needles (c :: seen) with
      | nil =>
          have hright : endingHere others (c :: seen) = [] := by
            simpa [hleft] using hends
          rw [hright]
          exact ih _
      | cons first ids =>
          cases hright : endingHere others (c :: seen) with
          | nil => simp [hleft, hright] at hends
          | cons other otherIds =>
              rw [hleft, hright] at hends
              rw [List.map_cons, List.map_cons, haho _ _ _ _ (List.cons_ne_nil _ _) hends, ih]

/-- A needle is reported in every order of the needles or in none. -/
theorem reports_iff_of_perm (haho : aho.ByText) {others : List (List Char)}
    (hperm : needles.Perm others) (text needle : List Char) :
    (∃ id ∈ findIter aho needles text, needles[id]? = some needle) ↔
      ∃ id ∈ findIter aho others text, others[id]? = some needle := by
  have htexts := map_findFrom_eq aho haho hperm [] text
  rw [← List.mem_map, ← List.mem_map, findIter, findIter, htexts]

/-! ## The longest needle -/

/-- The place of a needle among all needles, a longer one being greater. -/
def needleRank (needles : List (List Char)) (id : ℕ) : List ℕ :=
  (needles[id]?).elim [] fun needle => needle.length :: needle.map Char.toNat

/-- The rank of a needle tells its text. -/
theorem needleRank_inj {others : List (List Char)} {id other : ℕ}
    (hrank : needleRank needles id = needleRank others other) :
    needles[id]? = others[other]? := by
  unfold needleRank at hrank
  cases hleft : needles[id]? with
  | none => cases hright : others[other]? <;> simp_all
  | some left =>
      cases hright : others[other]? with
      | none => simp_all
      | some right =>
          rw [hleft, hright] at hrank
          have htoNat : Function.Injective Char.toNat := fun _ _ => Char.toNat_inj.mp
          rw [List.map_injective_iff.mpr htoNat (List.cons.inj hrank).2]

/-- The choice of the crate as it is built: its automaton is in the state of the longest needle that
ends here, and reports that one first. -/
def longestNeedle : AhoCorasick where
  choose needles ids := (ids.argmax (needleRank needles)).getD 0
  choose_mem := by
    intro needles ids hids
    cases hmax : ids.argmax (needleRank needles) with
    | none => exact absurd (List.argmax_eq_none.mp hmax) hids
    | some id => exact List.argmax_mem hmax

/-- The longest needle has the highest rank of those to choose from. -/
theorem needleRank_le_choose {ids : List ℕ} {id : ℕ} (hid : id ∈ ids) :
    needleRank needles id ≤ needleRank needles (longestNeedle.choose needles ids) := by
  change _ ≤ needleRank needles ((ids.argmax (needleRank needles)).getD 0)
  cases hmax : ids.argmax (needleRank needles) with
  | none => exact absurd (List.argmax_eq_none.mp hmax) (List.ne_nil_of_mem hid)
  | some greatest =>
      rw [Option.getD_some]
      refine List.le_of_mem_argmax hid ?_
      convert Option.mem_def.mpr hmax

/-- With more needles to choose from the rank does not fall. -/
theorem longestNeedle_le {others : List (List Char)} {ids otherIds : List ℕ} (hne : ids ≠ [])
    (hsub : ids.map (needles[·]?) ⊆ otherIds.map (others[·]?)) :
    needleRank needles (longestNeedle.choose needles ids) ≤
      needleRank others (longestNeedle.choose others otherIds) := by
  obtain ⟨other, hother, htext⟩ := List.mem_map.mp
    (hsub (List.mem_map_of_mem (longestNeedle.choose_mem hne)))
  have hrank : needleRank others other =
      needleRank needles (longestNeedle.choose needles ids) := by
    rw [needleRank, needleRank, htext]
  exact hrank ▸ needleRank_le_choose hother

/-- The choice of the longest needle looks at the texts only. -/
theorem longestNeedle_byText : longestNeedle.ByText := by
  intro needles others ids otherIds hne hperm
  have hotherIds : otherIds ≠ [] := by
    rintro rfl
    exact hne (List.map_eq_nil_iff.mp hperm.eq_nil)
  exact needleRank_inj (le_antisymm (longestNeedle_le hne hperm.subset)
    (longestNeedle_le hotherIds hperm.symm.subset))

/-! ## Where matches lie -/

/-- What was read between two places of a text, backwards. -/
def readBack (text : List Char) (start stop : ℕ) : List Char :=
  ((text.take stop).drop start).reverse

/-- A search that starts at one place finds its first needle at the other. -/
structure FirstEnd (needles : List (List Char)) (text : List Char) (start stop : ℕ) : Prop where
  lt : start < stop
  le : stop ≤ text.length
  ends : endingHere needles (readBack text start stop) ≠ []
  first : ∀ here, start < here → here < stop → endingHere needles (readBack text start here) = []

/-- The search reports the needle: it starts anew behind every match, and one of the matches ends
with this needle, which is chosen among all that end there. -/
def Reports (aho : AhoCorasick) (needles : List (List Char)) (text : List Char) (id : ℕ) : Prop :=
  ∃ start stop, Relation.ReflTransGen (FirstEnd needles text) 0 start ∧
    FirstEnd needles text start stop ∧
      aho.choose needles (endingHere needles (readBack text start stop)) = id

section Places

variable {text : List Char} {start here : ℕ}

/-- Nothing is read back from a place to itself. -/
theorem readBack_self (text : List Char) (here : ℕ) : readBack text here here = [] := by
  rw [readBack, List.drop_eq_nil_of_le (List.length_take_le _ _), List.reverse_nil]

/-- Reading one more character. -/
theorem readBack_succ {c : Char} {rest : List Char} (hle : start ≤ here)
    (hrest : text.drop here = c :: rest) :
    readBack text start (here + 1) = c :: readBack text start here := by
  have hc : text[here]? = some c := by
    rw [← List.head?_drop, hrest, List.head?_cons]
  have hlt := (List.getElem?_eq_some_iff.mp hc).1
  have hlength : start ≤ (text.take here).length := by
    rw [List.length_take]
    omega
  rw [readBack, List.take_add_one, hc, Option.toList_some, List.drop_append_of_le_length hlength,
    List.reverse_append]
  rfl

/-- There is one first end of a match. -/
theorem FirstEnd.unique {stop other : ℕ} (hstop : FirstEnd needles text start stop)
    (hother : FirstEnd needles text start other) : stop = other := by
  rcases Nat.lt_trichotomy stop other with hlt | heq | hlt
  · exact absurd (hother.first stop hstop.lt hlt) hstop.ends
  · exact heq
  · exact absurd (hstop.first other hother.lt hlt) hother.ends

/-- The part of a search from a place on, when it started at an earlier one and found nothing in
between. -/
theorem mem_findFrom_iff {id : ℕ} (rest : List Char) (hrest : text.drop here = rest)
    (hle : start ≤ here)
    (hnone : ∀ mid, start < mid → mid ≤ here → endingHere needles (readBack text start mid) = []) :
    id ∈ findFrom aho needles (readBack text start here) rest ↔
      ∃ first stop, Relation.ReflTransGen (FirstEnd needles text) start first ∧
        FirstEnd needles text first stop ∧
          aho.choose needles (endingHere needles (readBack text first stop)) = id := by
  induction rest generalizing start here with
  | nil =>
      have hlength : text.length ≤ here := List.drop_eq_nil_iff.mp hrest
      -- No match can end behind the text.
      have hstuck : ∀ stop, ¬ FirstEnd needles text start stop := fun stop hstop =>
        hstop.ends (hnone stop hstop.lt (hstop.le.trans hlength))
      rw [findFrom]
      constructor
      · intro h
        cases h
      · intro h
        obtain ⟨first, stop, hfirst, hstop, -⟩ := h
        rcases hfirst.cases_head with rfl | ⟨next, hnext, -⟩
        · exact absurd hstop (hstuck stop)
        · exact absurd hnext (hstuck next)
  | cons c rest ih =>
      have hlater : text.drop (here + 1) = rest := by
        rw [← List.drop_drop, hrest, List.drop_succ_cons, List.drop_zero]
      have hlt : here < text.length := by
        by_contra hge
        rw [List.drop_eq_nil_of_le (Nat.not_lt.mp hge)] at hrest
        cases hrest
      rw [findFrom, ← readBack_succ hle hrest]
      cases hends : endingHere needles (readBack text start (here + 1)) with
      | nil =>
          refine ih hlater (Nat.le_succ_of_le hle) fun mid hstart hmid => ?_
          rcases Nat.le_succ_iff.mp hmid with hmid | rfl
          · exact hnone mid hstart hmid
          · exact hends
      | cons chosen others =>
          have hmatch : FirstEnd needles text start (here + 1) :=
            ⟨Nat.lt_succ_of_le hle, hlt, by rw [hends]; exact List.cons_ne_nil _ _,
              fun mid hstart hmid => hnone mid hstart (Nat.le_of_lt_succ hmid)⟩
          have hbehind := @ih (here + 1) (here + 1) hlater (Nat.le_refl _)
            fun mid hstart hmid => absurd hstart (Nat.not_lt.mpr hmid)
          rw [readBack_self] at hbehind
          show id ∈ aho.choose needles (chosen :: others) :: findFrom aho needles [] rest ↔ _
          rw [← hends, List.mem_cons, hbehind]
          constructor
          · intro h
            rcases h with rfl | ⟨first, stop, hfirst, hstop, hid⟩
            · exact ⟨start, here + 1, .refl, hmatch, rfl⟩
            · exact ⟨first, stop, .head hmatch hfirst, hstop, hid⟩
          · intro h
            obtain ⟨first, stop, hfirst, hstop, hid⟩ := h
            rcases hfirst.cases_head with rfl | ⟨next, hnext, hfirst⟩
            · rw [hstop.unique hmatch] at hid
              exact .inl hid.symm
            · rw [hnext.unique hmatch] at hfirst
              exact .inr ⟨first, stop, hfirst, hstop, hid⟩

/-- The search reports the needles that it meets when it starts anew behind every match. -/
theorem mem_findIter_iff (aho : AhoCorasick) (needles : List (List Char)) (text : List Char)
    (id : ℕ) : id ∈ findIter aho needles text ↔ Reports aho needles text id := by
  rw [findIter, ← readBack_self text 0]
  exact mem_findFrom_iff aho text (List.drop_zero ..) (Nat.le_refl 0)
    fun mid hstart hmid => absurd hstart (Nat.not_lt.mpr hmid)

/-- A needle that is reported occurs. -/
theorem Reports.occurs {id : ℕ} (h : Reports aho needles text id) :
    ∃ needle, needles[id]? = some needle ∧ Occurs text needle := by
  obtain ⟨start, stop, -, hstop, hid⟩ := h
  have hmem := @aho.choose_mem needles _ hstop.ends
  rw [hid] at hmem
  obtain ⟨needle, hneedle, hends⟩ := mem_endingHere.mp hmem
  refine ⟨needle, hneedle, (endsHere_iff.mp hends).isInfix.trans ?_⟩
  rw [readBack, List.reverse_reverse]
  exact ((List.drop_suffix _ _).isInfix.trans (List.take_prefix _ _).isInfix).map _

end Places

end AhoCorasick
