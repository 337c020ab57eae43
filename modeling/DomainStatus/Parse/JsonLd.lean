import DomainStatus.Lib.Occurrences

/-!
# Secrets inside JSON-LD scripts

`is_inside_json_ld_script` of `src/parse/secrets.rs` looks back from a match for the script it is
in. A result of `none` stands for a panic of a slice. Read `isInsideJsonLdScript_spec` first.
-/

namespace DomainStatus.Secrets

open Text

/-- The end of the opening tag in the text from `<script` on: its `>`, or at most 200 bytes. -/
def tagEnd (region : List Char) : ℕ :=
  (find ">".toList region).getD (min (len region) 200)

/-- The place is inside of a JSON-LD script. A panic is `none`. -/
def isInsideJsonLdScript (body : List Char) (pos : ℕ) : Option Bool := do
  let before ← slice body 0 (min pos (len body))
  let lowerBefore := before.map Char.toLower
  match rfind "<script".toList lowerBefore with
  | none => return false
  | some scriptStart =>
      let region ← slice lowerBefore scriptStart (len lowerBefore)
      if (find "</script".toList region).any fun close => scriptStart + close < pos then
        return false
      else
        let tag ← slice region 0 (tagEnd region)
        return contains tag "application/ld+json".toList

/-- The location of a match by the text around it. The parameter is `str::to_lowercase`. -/
def inferLocation (toLowercase : List Char → List Char) (context : List Char) : String :=
  let hasText := fun needle : String => contains (toLowercase context) needle.toList
  if hasText "<script" || hasText "</script" then "inline_script"
  else if hasText "<!--" then "html_comment"
  else if hasText "data-" then "data_attribute"
  else if hasText "?key=" || hasText "&key=" || hasText "&token=" || hasText "?token=" then
    "url_parameter"
  else if hasText "content=\"" || hasText "content='" then "meta_tag"
  else "html_body"

/-- Where in a page a match is. -/
def inferLocationForBodyMatch (toLowercase : List Char → List Char) (body : List Char)
    (matchStart : ℕ) (context : List Char) : Option String := do
  if ← isInsideJsonLdScript body matchStart then return "json_ld"
  else return inferLocation toLowercase context

/-! ## What it looks for -/

/-- The last `<script` of the text, which is not closed in it. -/
structure OpenScript (lower : List Char) (start : ℕ) : Prop where
  last : IsGreatest {i | OccursAt "<script".toList lower i} start
  notClosed : ∀ i, start ≤ i → ¬OccursAt "</script".toList lower i

/-- No `>` follows. -/
def NoTagEnd (lower : List Char) (start : ℕ) : Prop :=
  ∀ i, start ≤ i → ¬OccursAt ">".toList lower i

/-- The opening tag goes up to its first `>`. Without one it is cut after 200 bytes. -/
def TagStop (lower : List Char) (start stop : ℕ) : Prop :=
  IsLeast {i | start ≤ i ∧ OccursAt ">".toList lower i} stop ∨
    NoTagEnd lower start ∧ stop = min (len lower) (start + 200)

/-- The text ends inside of a JSON-LD script. -/
def InsideJsonLd (lower : List Char) : Prop :=
  ∃ start stop, OpenScript lower start ∧ TagStop lower start stop ∧
    ∃ i, start ≤ i ∧ i + len "application/ld+json".toList ≤ stop ∧
      OccursAt "application/ld+json".toList lower i

/-- The text ends in an opening tag of more than 200 bytes, and a character lies across the 200th
byte of it. -/
def CutsTag (lower : List Char) : Prop :=
  ∃ start, OpenScript lower start ∧ NoTagEnd lower start ∧ start + 200 < len lower ∧
    isCharBoundary lower (start + 200) = false

section Region

variable {lower region needle : List Char} {start stop offset : ℕ}

/-- What occurs in the text from `start` on. -/
theorem occursAt_region_iff (hregion : slice lower start (len lower) = some region) :
    OccursAt needle region offset ↔ OccursAt needle lower (start + offset) := by
  rw [occursAt_slice_iff hregion]
  exact and_iff_right_of_imp fun h => h.add_len_le

/-- Nothing occurs in the last region if nothing occurs behind its start. -/
theorem forall_region_iff (hregion : slice lower start (len lower) = some region) :
    (∀ offset, ¬OccursAt needle region offset) ↔ ∀ i, start ≤ i → ¬OccursAt needle lower i := by
  constructor
  · intro h i hi hoccurs
    obtain ⟨offset, rfl⟩ := Nat.exists_eq_add_of_le hi
    exact h offset ((occursAt_region_iff hregion).mpr hoccurs)
  · intro h offset hoccurs
    exact h (start + offset) (Nat.le_add_right _ _) ((occursAt_region_iff hregion).mp hoccurs)

/-- The end of the tag is where it should be. -/
theorem tagStop_iff (hregion : slice lower start (len lower) = some region) :
    TagStop lower start stop ↔ stop = start + tagEnd region := by
  have hlen := add_len_slice hregion
  rcases find_spec ">".toList region with ⟨hfind, hnone⟩ | ⟨offset, hfind, hoccurs, hleast⟩
  · have htag : NoTagEnd lower start := (forall_region_iff hregion).mp hnone
    rw [tagEnd, hfind, Option.getD_none]
    constructor
    · intro h
      rcases h with hstop | ⟨-, hstop⟩
      · exact absurd hstop.1.2 (htag stop hstop.1.1)
      · omega
    · intro h
      exact Or.inr ⟨htag, by omega⟩
  · rw [tagEnd, hfind, Option.getD_some]
    have hlower := (occursAt_region_iff hregion).mp hoccurs
    have hfirst : IsLeast {i | start ≤ i ∧ OccursAt ">".toList lower i} (start + offset) := by
      refine ⟨⟨Nat.le_add_right _ _, hlower⟩, fun i hi => ?_⟩
      obtain ⟨later, rfl⟩ := Nat.exists_eq_add_of_le hi.1
      exact Nat.add_le_add_left (hleast ((occursAt_region_iff hregion).mpr hi.2)) _
    constructor
    · intro h
      rcases h with hstop | ⟨htag, -⟩
      · exact hstop.unique hfirst
      · exact absurd hlower (htag (start + offset) (Nat.le_add_right _ _))
    · intro h
      rw [h]
      exact Or.inl hfirst

/-- The tag is cut inside of a character only where it is cut after 200 bytes. -/
theorem slice_tag_eq_none_iff (hregion : slice lower start (len lower) = some region) :
    slice region 0 (tagEnd region) = none ↔
      NoTagEnd lower start ∧ start + 200 < len lower ∧
        isCharBoundary lower (start + 200) = false := by
  have hlen := add_len_slice hregion
  obtain ⟨lead, rest, htext, hlead, hend⟩ := exists_append_of_slice hregion
  have hmoved : isCharBoundary lower (start + 200) = isCharBoundary region 200 := by
    have hrest : rest = [] := by
      have hwhole := congrArg len htext
      rw [len_append, len_append] at hwhole
      exact eq_nil_of_len_eq_zero (by omega)
    rw [htext, hrest, List.append_nil, ← hlead]
    exact isCharBoundary_append
  rw [slice_zero_eq_none_iff, hmoved]
  rcases find_spec ">".toList region with ⟨hfind, hnone⟩ | ⟨offset, hfind, hoccurs, -⟩
  · have htag : NoTagEnd lower start := (forall_region_iff hregion).mp hnone
    rw [tagEnd, hfind, Option.getD_none]
    rcases Nat.lt_or_ge 200 (len region) with hlong | hshort
    · rw [Nat.min_eq_right hlong.le]
      exact ⟨fun h => ⟨htag, by omega, h⟩, fun h => h.2.2⟩
    · rw [Nat.min_eq_left hshort, isCharBoundary_len]
      exact iff_of_false (by simp) fun h => by omega
  · rw [tagEnd, hfind, Option.getD_some, hoccurs.isCharBoundary]
    refine iff_of_false (by simp) fun h => ?_
    exact h.1 (start + offset) (Nat.le_add_right _ _) ((occursAt_region_iff hregion).mp hoccurs)

/-- What the code finds in the tag. -/
theorem contains_tag_iff {tag : List Char} (hregion : slice lower start (len lower) = some region)
    (htag : slice region 0 stop = some tag) :
    contains tag needle = true ↔
      ∃ i, start ≤ i ∧ i + len needle ≤ start + stop ∧ OccursAt needle lower i := by
  have hfits : stop ≤ len region := by
    obtain ⟨lead, rest, rfl, hlead, hstop⟩ := exists_append_of_slice htag
    rw [len_append, len_append]
    omega
  rw [slice_slice hregion hfits, Nat.add_zero] at htag
  exact contains_slice_iff htag

end Region

/-! ## What it finds -/

section Scripts

variable {body before lower region : List Char} {pos start : ℕ}

/-- The type stands in the tag that is open. -/
theorem insideJsonLd_iff (hopen : OpenScript lower start)
    (hregion : slice lower start (len lower) = some region) :
    InsideJsonLd lower ↔
      ∃ i, start ≤ i ∧ i + len "application/ld+json".toList ≤ start + tagEnd region ∧
        OccursAt "application/ld+json".toList lower i := by
  constructor
  · intro h
    obtain ⟨other, stop, hother, hstop, htype⟩ := h
    rw [hother.last.unique hopen.last] at hstop htype
    rwa [(tagStop_iff hregion).mp hstop] at htype
  · intro h
    exact ⟨start, _, hopen, (tagStop_iff hregion).mpr rfl, h⟩

/-- The search in the tag stops inside a character. -/
theorem cutsTag_iff (hopen : OpenScript lower start)
    (hregion : slice lower start (len lower) = some region) :
    CutsTag lower ↔ slice region 0 (tagEnd region) = none := by
  rw [slice_tag_eq_none_iff hregion]
  constructor
  · intro h
    obtain ⟨other, hother, hcut⟩ := h
    rwa [hother.last.unique hopen.last] at hcut
  · intro h
    exact ⟨start, hopen, h⟩

/-- A tag that is closed is not open. -/
theorem not_openScript_of_close {other close : ℕ}
    (hlast : IsGreatest {i | OccursAt "<script".toList lower i} start)
    (hregion : slice lower start (len lower) = some region)
    (hclose : OccursAt "</script".toList region close) : ¬OpenScript lower other := by
  intro hopen
  rw [hopen.last.unique hlast] at hopen
  exact hopen.notClosed (start + close) (Nat.le_add_right _ _)
    ((occursAt_region_iff hregion).mp hclose)

/-- Without an open script, the answer is no. -/
theorem outside_spec (hopen : ∀ other, ¬OpenScript lower other) :
    (some false = none ↔ CutsTag lower) ∧
      ∀ inside, some false = some inside → (inside = true ↔ InsideJsonLd lower) := by
  refine ⟨iff_of_false (Option.some_ne_none _) fun h => ?_, fun inside hinside => ?_⟩
  · obtain ⟨other, hother, -⟩ := h
    exact hopen other hother
  · cases hinside
    refine iff_of_false Bool.false_ne_true fun h => ?_
    obtain ⟨other, -, hother, -⟩ := h
    exact hopen other hother

/-- The function panics where it cuts an opening tag inside of a character, and otherwise tells
whether the text before the match ends inside of a JSON-LD script. -/
theorem isInsideJsonLdScript_spec (hbefore : slice body 0 pos = some before) :
    (isInsideJsonLdScript body pos = none ↔ CutsTag (before.map Char.toLower)) ∧
      ∀ inside, isInsideJsonLdScript body pos = some inside →
        (inside = true ↔ InsideJsonLd (before.map Char.toLower)) := by
  have hpos : min pos (len body) = pos := by
    obtain ⟨lead, rest, rfl, hlead, hend⟩ := exists_append_of_slice hbefore
    rw [len_append, len_append]
    omega
  have hlen : len (before.map Char.toLower) = pos := by
    rw [len_map_toLower, len_slice hbefore, Nat.sub_zero]
  simp only [isInsideJsonLdScript, hpos, hbefore, Option.bind_eq_bind, Option.bind_some, pure]
  generalize before.map Char.toLower = lower at hlen ⊢
  rcases rfind_spec "<script".toList lower with ⟨hfind, hnone⟩ | ⟨start, hfind, hlast⟩
  · rw [hfind]
    exact outside_spec fun other h => hnone other h.last.1
  · have hstart := hlast.1.isCharBoundary
    obtain ⟨region, -, hregion, -, -⟩ := slice_append_slice (le_len_of_isCharBoundary hstart)
      (Nat.le_refl _) hstart isCharBoundary_len isCharBoundary_len
    rw [hfind]
    simp only [hregion, Option.bind_some]
    rcases find_spec "</script".toList region with ⟨hclose, hnone⟩ | ⟨close, hclose, hoccurs, -⟩
    · have hopen : OpenScript lower start := ⟨hlast, (forall_region_iff hregion).mp hnone⟩
      rw [hclose, Option.any_none, if_neg Bool.false_ne_true, cutsTag_iff hopen hregion]
      cases htag : slice region 0 (tagEnd region) with
      | none => exact ⟨iff_of_true rfl rfl, fun inside hinside => by cases hinside⟩
      | some tag =>
          refine ⟨iff_of_false (Option.some_ne_none _) (Option.some_ne_none _),
            fun inside hinside => ?_⟩
          cases hinside
          rw [insideJsonLd_iff hopen hregion, contains_tag_iff hregion htag]
    · -- the last script is closed before the match
      have hfits := ((occursAt_region_iff hregion).mp hoccurs).add_len_le
      have hbehind : start + close < pos := by
        have hneedle : len "</script".toList = 8 := rfl
        omega
      rw [hclose, Option.any_some, decide_eq_true hbehind, if_pos rfl]
      exact outside_spec fun other => not_openScript_of_close hlast hregion hoccurs

end Scripts

/-- The location panics where the search in the tag does. -/
theorem inferLocationForBodyMatch_eq_none_iff {toLowercase : List Char → List Char}
    {body context : List Char} {pos : ℕ} :
    inferLocationForBodyMatch toLowercase body pos context = none ↔
      isInsideJsonLdScript body pos = none := by
  rw [inferLocationForBodyMatch]
  cases isInsideJsonLdScript body pos with
  | none => exact iff_of_true rfl rfl
  | some inside => cases inside <;> exact iff_of_false (Option.some_ne_none _) (by simp)

/-- The inference for a match answers as it should, and the location of the match is inferred. -/
structure InfersJsonLd (body before : List Char) (pos : ℕ) : Prop where
  exact : ∃ inside, isInsideJsonLdScript body pos = some inside ∧
    (inside = true ↔ InsideJsonLd (before.map Char.toLower))
  total : ∀ toLowercase context, inferLocationForBodyMatch toLowercase body pos context ≠ none

/-- For a match at a character of the body, the inference of JSON-LD is total and exact unless the
text before the match ends in an opening tag that is cut inside of a character. -/
theorem is_inside_json_ld_script_iff (body : List Char) (pos : ℕ)
    (hpos : isCharBoundary body pos = true) :
    ∃ before, slice body 0 pos = some before ∧
      (InfersJsonLd body before pos ↔ ¬CutsTag (before.map Char.toLower)) := by
  obtain ⟨before, -, hbefore, -⟩ := slice_append_slice (Nat.zero_le pos)
    (le_len_of_isCharBoundary hpos) isCharBoundary_zero hpos isCharBoundary_len
  obtain ⟨hpanics, hexact⟩ := isInsideJsonLdScript_spec hbefore
  refine ⟨before, hbefore, ?_⟩
  rw [← hpanics]
  constructor
  · intro h
    obtain ⟨inside, hinside, -⟩ := h.exact
    rw [hinside]
    exact Option.some_ne_none inside
  · intro h
    obtain ⟨inside, hinside⟩ := Option.ne_none_iff_exists'.mp h
    exact ⟨⟨inside, hinside, hexact inside hinside⟩,
      fun _ _ hnone => h (inferLocationForBodyMatch_eq_none_iff.mp hnone)⟩

/-- A page with a key in JSON-LD. -/
def jsonLdPage : List Char :=
  "<SCRIPT type=application/ld+json>AKIA".toList

/-- A match in a script of JSON-LD. -/
theorem is_inside_json_ld_script_json_ld_page :
    isInsideJsonLdScript jsonLdPage 33 = some true ∧
      ∃ before, slice jsonLdPage 0 33 = some before ∧
        (InfersJsonLd jsonLdPage before 33 ↔ ¬CutsTag (before.map Char.toLower)) :=
  ⟨by decide +kernel, is_inside_json_ld_script_iff jsonLdPage 33 (by decide +kernel)⟩

/-- A key behind a tag that does not end, with an accented letter at its 200th byte. -/
def cutTagPage : List Char :=
  "<script ".toList ++ List.replicate 191 'a' ++ "éAKIA".toList

/-- On some page the search in the tag panics. -/
theorem is_inside_json_ld_script_panics :
    ¬∀ (body : List Char) (pos : ℕ), isCharBoundary body pos = true →
      ∃ before, slice body 0 pos = some before ∧ InfersJsonLd body before pos := by
  intro h
  have hpanics : isInsideJsonLdScript cutTagPage 201 = none := by decide +kernel
  obtain ⟨before, -, hinfers⟩ := h cutTagPage 201 (by decide +kernel)
  obtain ⟨inside, hinside, -⟩ := hinfers.exact
  rw [hpanics] at hinside
  cases hinside

end DomainStatus.Secrets
