import DomainStatus.Lib.ByteOffsets

/-!
# Occurrences in a text

The byte offsets at which one text occurs in another, and the functions that search for them. Read
`find_spec` and `rfind_spec` first: the searches find the first and the last occurrence. Occurrences
in a slice are those of the whole text that lie in it, by `occursAt_slice_iff`.
-/

namespace Text

/-- The needle stands at an offset of the text. -/
def OccursAt (needle text : List Char) (offset : ℕ) : Prop :=
  slice text offset (offset + len needle) = some needle

/-- `str::find`: the offset of the first occurrence. -/
@[grind =] def find (needle : List Char) : List Char → Option ℕ
  | [] => if needle = [] then some 0 else none
  | c :: rest =>
      if needle.isPrefixOf (c :: rest) then some 0
      else (find needle rest).map fun offset => c.utf8Size + offset

/-- `str::rfind`: the offset of the last occurrence. -/
@[grind =] def rfind (needle : List Char) : List Char → Option ℕ
  | [] => if needle = [] then some 0 else none
  | c :: rest =>
      match rfind needle rest with
      | some offset => some (c.utf8Size + offset)
      | none => if needle.isPrefixOf (c :: rest) then some 0 else none

variable {needle text mid lead rest : List Char} {start stop offset : ℕ}

/-! ## Occurrences -/

/-- A needle occurs where it stands between two parts of the text. -/
theorem occursAt_iff :
    OccursAt needle text offset ↔
      ∃ lead rest, text = lead ++ needle ++ rest ∧ len lead = offset := by
  rw [OccursAt, slice_eq_some_iff]
  constructor
  · intro h
    obtain ⟨lead, rest, htext, hlead, -⟩ := h
    exact ⟨lead, rest, htext, hlead⟩
  · intro h
    obtain ⟨lead, rest, htext, rfl⟩ := h
    exact ⟨lead, rest, htext, rfl, rfl⟩

/-- An occurrence ends within the text. -/
theorem OccursAt.add_len_le (h : OccursAt needle text offset) : offset + len needle ≤ len text := by
  obtain ⟨lead, rest, rfl, rfl⟩ := occursAt_iff.mp h
  rw [len_append, len_append]
  omega

/-- An occurrence starts at a boundary. -/
theorem OccursAt.isCharBoundary (h : OccursAt needle text offset) :
    isCharBoundary text offset = true := by
  obtain ⟨lead, rest, rfl, rfl⟩ := occursAt_iff.mp h
  exact isCharBoundary_iff.mpr ⟨lead, needle ++ rest, List.append_assoc .., rfl⟩

/-- An occurrence ends at a boundary. -/
theorem OccursAt.isCharBoundary_end (h : OccursAt needle text offset) :
    Text.isCharBoundary text (offset + len needle) = true := by
  obtain ⟨lead, rest, rfl, rfl⟩ := occursAt_iff.mp h
  exact isCharBoundary_iff.mpr ⟨lead ++ needle, rest, rfl, len_append⟩

/-- A text contains what occurs in it somewhere. -/
theorem contains_iff_occursAt :
    contains text needle = true ↔ ∃ offset, OccursAt needle text offset := by
  rw [contains_iff]
  constructor
  · intro h
    obtain ⟨lead, rest, htext⟩ := h
    exact ⟨len lead, occursAt_iff.mpr ⟨lead, rest, htext.symm, rfl⟩⟩
  · intro h
    obtain ⟨offset, hoffset⟩ := h
    obtain ⟨lead, rest, htext, -⟩ := occursAt_iff.mp hoffset
    exact ⟨lead, rest, htext.symm⟩

/-- The occurrences in a slice are those of the text that lie in it. -/
theorem occursAt_slice_iff (h : slice text start stop = some mid) :
    OccursAt needle mid offset ↔
      start + offset + len needle ≤ stop ∧ OccursAt needle text (start + offset) := by
  have hstop := add_len_slice h
  constructor
  · intro hoccurs
    have hfits := hoccurs.add_len_le
    refine ⟨by omega, ?_⟩
    rw [OccursAt, slice_slice h hfits] at hoccurs
    rwa [OccursAt, Nat.add_assoc]
  · intro hoccurs
    rw [OccursAt, slice_slice h (by omega)]
    rw [OccursAt, Nat.add_assoc] at hoccurs
    exact hoccurs.2

/-- Lower case changes no offsets. -/
theorem slice_map_toLower (h : slice text start stop = some mid) :
    slice (text.map Char.toLower) start stop = some (mid.map Char.toLower) := by
  obtain ⟨lead, rest, rfl, rfl, rfl⟩ := exists_append_of_slice h
  refine slice_eq_some_iff.mpr ⟨lead.map Char.toLower, rest.map Char.toLower, ?_, ?_, ?_⟩
  · simp only [List.map_append]
  · rw [len_map_toLower]
  · rw [len_map_toLower, len_map_toLower]

/-- What occurs in a slice of the text. -/
theorem contains_slice_iff (h : slice text start stop = some mid) :
    contains mid needle = true ↔
      ∃ i, start ≤ i ∧ i + len needle ≤ stop ∧ OccursAt needle text i := by
  rw [contains_iff_occursAt]
  constructor
  · intro hoccurs
    obtain ⟨offset, hoffset⟩ := hoccurs
    obtain ⟨hfits, hoccurs⟩ := (occursAt_slice_iff h).mp hoffset
    exact ⟨start + offset, Nat.le_add_right _ _, hfits, hoccurs⟩
  · intro hoccurs
    obtain ⟨i, hi, hfits, hoccurs⟩ := hoccurs
    obtain ⟨offset, rfl⟩ := Nat.exists_eq_add_of_le hi
    exact ⟨offset, (occursAt_slice_iff h).mpr ⟨hfits, hoccurs⟩⟩

/-- A character that the needle does not have separates its occurrences. -/
theorem contains_append_cons {c : Char} (hc : c ∉ needle) :
    contains (lead ++ c :: rest) needle = true ↔
      contains lead needle = true ∨ contains rest needle = true := by
  rw [contains_iff, contains_iff, contains_iff]
  constructor
  · intro h
    obtain ⟨before, behind, htext⟩ := h
    rcases List.append_eq_append_iff.mp htext with ⟨more, hlead, -⟩ | ⟨more, hneedle, hrest⟩
    · exact Or.inl ⟨before, more, hlead.symm⟩
    · cases more with
      | nil =>
          rw [List.append_nil] at hneedle
          exact Or.inl ⟨before, [], by rw [hneedle, List.append_nil]⟩
      | cons first more =>
          obtain ⟨rfl, hmore⟩ := List.cons.inj hrest
          rcases List.append_eq_append_iff.mp hneedle with ⟨part, -, hpart⟩ | ⟨part, -, hpart⟩
          · exact absurd (hpart ▸ List.mem_append_right part List.mem_cons_self) hc
          · cases part with
            | nil =>
                rw [List.nil_append] at hpart
                exact absurd (hpart ▸ List.mem_cons_self) hc
            | cons first part =>
                obtain ⟨-, htail⟩ := List.cons.inj hpart
                exact Or.inr ⟨part, behind, by rw [hmore, htail]; rfl⟩
  · intro h
    rcases h with ⟨before, behind, rfl⟩ | ⟨before, behind, rfl⟩
    · exact ⟨before, behind ++ c :: rest, by simp only [List.append_assoc]⟩
    · exact ⟨lead ++ c :: before, behind, by simp only [List.append_assoc, List.cons_append]⟩

/-- Only the start of a text can be an occurrence at its start. -/
theorem occursAt_zero_iff : OccursAt needle text 0 ↔ needle.isPrefixOf text = true := by
  rw [occursAt_iff, List.isPrefixOf_iff_prefix]
  constructor
  · intro h
    obtain ⟨lead, rest, rfl, hlead⟩ := h
    rw [eq_nil_of_len_eq_zero hlead, List.nil_append]
    exact List.prefix_append needle rest
  · intro h
    obtain ⟨rest, rfl⟩ := h
    exact ⟨[], rest, rfl, rfl⟩

/-- An occurrence behind the first character is one in the rest. -/
theorem occursAt_cons_iff {c : Char} (hpos : 0 < offset) :
    OccursAt needle (c :: text) offset ↔
      c.utf8Size ≤ offset ∧ OccursAt needle text (offset - c.utf8Size) := by
  rw [occursAt_iff, occursAt_iff]
  constructor
  · intro h
    obtain ⟨lead, rest, htext, rfl⟩ := h
    cases lead with
    | nil => exact absurd hpos (Nat.lt_irrefl 0)
    | cons first lead =>
        obtain ⟨rfl, htail⟩ := List.cons.inj htext
        rw [len_cons, Nat.add_sub_cancel_left]
        exact ⟨Nat.le_add_right _ _, lead, rest, htail, rfl⟩
  · intro h
    obtain ⟨hsize, lead, rest, htext, hlead⟩ := h
    refine ⟨c :: lead, rest, ?_, ?_⟩
    · rw [htext]
      rfl
    · rw [len_cons]
      omega

/-- In an empty text only the empty needle occurs. -/
theorem occursAt_nil_iff : OccursAt needle [] offset ↔ needle = [] ∧ offset = 0 := by
  rw [occursAt_iff]
  constructor
  · intro h
    obtain ⟨lead, rest, htext, rfl⟩ := h
    have hleft := (List.append_eq_nil_iff.mp htext.symm).1
    rw [(List.append_eq_nil_iff.mp hleft).1]
    exact ⟨(List.append_eq_nil_iff.mp hleft).2, rfl⟩
  · intro h
    obtain ⟨rfl, rfl⟩ := h
    exact ⟨[], [], rfl, rfl⟩

/-! ## Searches -/

/-- An occurrence behind the first character is one in the rest. -/
theorem occursAt_cons_add {c : Char} :
    OccursAt needle (c :: text) (c.utf8Size + offset) ↔ OccursAt needle text offset := by
  have hpos := c.utf8Size_pos
  rw [occursAt_cons_iff (by omega), Nat.add_sub_cancel_left]
  exact and_iff_right (Nat.le_add_right _ _)

/-- Every occurrence is at the start, or one in the rest. -/
theorem OccursAt.zero_or_rest {c : Char} (h : OccursAt needle (c :: text) offset) :
    offset = 0 ∧ needle.isPrefixOf (c :: text) = true ∨
      ∃ later, offset = c.utf8Size + later ∧ OccursAt needle text later := by
  rcases Nat.eq_zero_or_pos offset with rfl | hpos
  · exact Or.inl ⟨rfl, occursAt_zero_iff.mp h⟩
  · obtain ⟨hsize, hrest⟩ := (occursAt_cons_iff hpos).mp h
    exact Or.inr ⟨offset - c.utf8Size, by omega, hrest⟩

/-- A needle that is not at the front and not in the rest does not occur. -/
theorem not_occursAt_cons {c : Char} (hlead : ¬needle.isPrefixOf (c :: text) = true)
    (hnone : ∀ offset, ¬OccursAt needle text offset) (offset : ℕ) :
    ¬OccursAt needle (c :: text) offset := by
  intro h
  rcases h.zero_or_rest with ⟨-, hprefixed⟩ | ⟨later, -, hlater⟩
  · exact hlead hprefixed
  · exact hnone later hlater

/-- The first occurrence, if there is one. -/
theorem find_spec (needle text : List Char) :
    (find needle text = none ∧ ∀ offset, ¬OccursAt needle text offset) ∨
      ∃ offset, find needle text = some offset ∧ IsLeast {i | OccursAt needle text i} offset := by
  induction text with
  | nil =>
      rw [find]
      by_cases hneedle : needle = []
      · rw [if_pos hneedle]
        exact Or.inr ⟨0, rfl, occursAt_nil_iff.mpr ⟨hneedle, rfl⟩, fun i _ => Nat.zero_le i⟩
      · rw [if_neg hneedle]
        exact Or.inl ⟨rfl, fun offset h => hneedle (occursAt_nil_iff.mp h).1⟩
  | cons c rest ih =>
      rw [find]
      by_cases hlead : needle.isPrefixOf (c :: rest) = true
      · rw [if_pos hlead]
        exact Or.inr ⟨0, rfl, occursAt_zero_iff.mpr hlead, fun i _ => Nat.zero_le i⟩
      · rw [if_neg hlead]
        rcases ih with ⟨hfind, hnone⟩ | ⟨offset, hfind, hoccurs, hleast⟩
        · rw [hfind]
          exact Or.inl ⟨rfl, not_occursAt_cons hlead hnone⟩
        · rw [hfind]
          refine Or.inr ⟨c.utf8Size + offset, rfl, occursAt_cons_add.mpr hoccurs, fun i hi => ?_⟩
          rcases OccursAt.zero_or_rest hi with ⟨-, hprefixed⟩ | ⟨later, rfl, hlater⟩
          · exact absurd hprefixed hlead
          · exact Nat.add_le_add_left (hleast hlater) _

/-- A search passes over characters that the needle does not start with. -/
theorem find_append_of_not_mem {first : Char} (h : first ∉ lead) :
    find (first :: needle) (lead ++ rest) =
      (find (first :: needle) rest).map fun offset => len lead + offset := by
  induction lead with
  | nil => simp
  | cons c lead ih =>
      have hne : first ≠ c := fun heq => h (heq ▸ List.mem_cons_self)
      have hlead : (first :: needle).isPrefixOf (c :: (lead ++ rest)) = false := by
        show (first == c && _) = false
        rw [beq_false_of_ne hne, Bool.false_and]
      rw [List.cons_append, find, hlead, if_neg Bool.false_ne_true,
        ih fun hmem => h (List.mem_cons_of_mem _ hmem), Option.map_map]
      refine congrFun (congrArg Option.map (funext fun offset => ?_)) _
      show c.utf8Size + (len lead + offset) = len (c :: lead) + offset
      rw [len_cons, Nat.add_assoc]

/-- A text starts with the needle that it starts with. -/
theorem find_self {first : Char} : find (first :: needle) (first :: needle ++ rest) = some 0 := by
  rw [List.cons_append, find, ← List.cons_append,
    if_pos (List.isPrefixOf_iff_prefix.mpr (List.prefix_append _ _))]

/-- The first occurrence is behind characters that the needle does not start with. -/
theorem find_append_self {first : Char} (h : first ∉ lead) :
    find (first :: needle) (lead ++ (first :: needle ++ rest)) = some (len lead) := by
  rw [find_append_of_not_mem h, find_self, Option.map_some, Nat.add_zero]

/-- The last occurrence, if there is one. -/
theorem rfind_spec (needle text : List Char) :
    (rfind needle text = none ∧ ∀ offset, ¬OccursAt needle text offset) ∨
      ∃ offset, rfind needle text = some offset ∧
        IsGreatest {i | OccursAt needle text i} offset := by
  induction text with
  | nil =>
      rw [rfind]
      by_cases hneedle : needle = []
      · rw [if_pos hneedle]
        exact Or.inr ⟨0, rfl, occursAt_nil_iff.mpr ⟨hneedle, rfl⟩,
          fun i hi => (occursAt_nil_iff.mp hi).2.le⟩
      · rw [if_neg hneedle]
        exact Or.inl ⟨rfl, fun offset h => hneedle (occursAt_nil_iff.mp h).1⟩
  | cons c rest ih =>
      rw [rfind]
      rcases ih with ⟨hfind, hnone⟩ | ⟨offset, hfind, hoccurs, hgreatest⟩
      · rw [hfind]
        by_cases hlead : needle.isPrefixOf (c :: rest) = true
        · refine Or.inr ⟨0, if_pos hlead, occursAt_zero_iff.mpr hlead, fun i hi => ?_⟩
          rcases OccursAt.zero_or_rest hi with ⟨rfl, -⟩ | ⟨later, -, hlater⟩
          · exact Nat.le_refl 0
          · exact absurd hlater (hnone later)
        · exact Or.inl ⟨if_neg hlead, not_occursAt_cons hlead hnone⟩
      · rw [hfind]
        refine Or.inr ⟨c.utf8Size + offset, rfl, occursAt_cons_add.mpr hoccurs, fun i hi => ?_⟩
        rcases OccursAt.zero_or_rest hi with ⟨rfl, -⟩ | ⟨later, rfl, hlater⟩
        · exact Nat.zero_le _
        · exact Nat.add_le_add_left (hgreatest hlater) _

/-! ## Searches for one character -/

/-- Each character of a text occurs in it. -/
theorem occursAt_of_mem {c : Char} (h : c ∈ text) : ∃ i, OccursAt [c] text i := by
  obtain ⟨lead, rest, rfl⟩ := List.append_of_mem h
  refine ⟨len lead, occursAt_iff.mpr ⟨lead, rest, ?_, rfl⟩⟩
  rw [List.append_assoc, List.singleton_append]

/-- What stands behind the last occurrence of a character. -/
theorem rfind_char_cases (c : Char) (text : List Char) :
    (rfind [c] text = none ∧ c ∉ text) ∨
      ∃ lead rest, text = lead ++ c :: rest ∧ rfind [c] text = some (len lead) ∧ c ∉ rest := by
  rcases rfind_spec [c] text with ⟨hrfind, hnone⟩ | ⟨offset, hrfind, hoccurs, hgreatest⟩
  · refine Or.inl ⟨hrfind, fun hmem => ?_⟩
    obtain ⟨i, hi⟩ := occursAt_of_mem hmem
    exact hnone i hi
  · obtain ⟨lead, rest, htext, rfl⟩ := occursAt_iff.mp hoccurs
    rw [List.append_assoc, List.singleton_append] at htext
    refine Or.inr ⟨lead, rest, htext, hrfind, fun hmem => ?_⟩
    obtain ⟨front, back, rfl⟩ := List.append_of_mem hmem
    have hlater := hgreatest (a := len (lead ++ c :: front))
      (occursAt_iff.mpr ⟨_, back, by rw [htext]; simp, rfl⟩)
    have hsize := c.utf8Size_pos
    rw [len_append, len_cons] at hlater
    omega

/-- What stands before the first occurrence of a character. -/
theorem find_char_cases (c : Char) (text : List Char) :
    (find [c] text = none ∧ c ∉ text) ∨
      ∃ lead rest, text = lead ++ c :: rest ∧ find [c] text = some (len lead) ∧ c ∉ lead := by
  rcases find_spec [c] text with ⟨hfind, hnone⟩ | ⟨offset, hfind, hoccurs, hleast⟩
  · refine Or.inl ⟨hfind, fun hmem => ?_⟩
    obtain ⟨i, hi⟩ := occursAt_of_mem hmem
    exact hnone i hi
  · obtain ⟨lead, rest, htext, rfl⟩ := occursAt_iff.mp hoccurs
    rw [List.append_assoc, List.singleton_append] at htext
    refine Or.inr ⟨lead, rest, htext, hfind, fun hmem => ?_⟩
    obtain ⟨front, back, rfl⟩ := List.append_of_mem hmem
    have hearlier := hleast (a := len front)
      (occursAt_iff.mpr ⟨front, back ++ c :: rest, by rw [htext]; simp, rfl⟩)
    have hsize := c.utf8Size_pos
    rw [len_append, len_cons] at hearlier
    omega

end Text
