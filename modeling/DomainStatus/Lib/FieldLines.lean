import DomainStatus.Lib.Text

/-!
# Texts of lines with fields

A text in which a line `name: value` is a field. Lines that are blank, that start with `#` or that
have no colon say nothing, nor does a field without a value. Read `fields_render` and
`wellFormed_of_mem_fields` first: the fields that can be read are those that can be written.
-/

namespace FieldLines

open Text

/-- The field of a line. -/
def field (line : List Char) : Option (List Char × List Char) :=
  let line := trimChars line
  if line = [] ∨ line.head? = some '#' then none
  else
    match splitOnce ':' line with
    | none => none
    | some (name, value) =>
        if trimChars value = [] then none else some (trimChars name, trimChars value)

/-- The fields of a text, from the top to the bottom. -/
def fields (text : List Char) : List (List Char × List Char) :=
  (lines text).filterMap field

/-- A value that a line can have. -/
structure Value (value : List Char) : Prop where
  trimmed : trimChars value = value
  ne_nil : value ≠ []
  line : '\n' ∉ value

/-- A name that a line can have. -/
structure Name (name : List Char) : Prop where
  trimmed : trimChars name = name
  plain : ':' ∉ name
  line : '\n' ∉ name
  comment : name.head? ≠ some '#'

/-- A field that a line can have. -/
structure WellFormed (found : List Char × List Char) : Prop where
  name : Name found.1
  value : Value found.2

/-- The line of a field. -/
def render (found : List Char × List Char) : List Char :=
  found.1 ++ ':' :: ' ' :: found.2

/-- The text of some fields. -/
def renderAll (found : List (List Char × List Char)) : List Char :=
  found.flatMap fun field => render field ++ ['\n']

variable {line text first second value name : List Char} {found : List Char × List Char}

/-! ## Lines -/

/-- A carriage return at the end of a line is not seen. The line is given in reverse. -/
theorem field_lineEnd (line : List Char) :
    field (if line.head? = some '\r' then line.tail else line).reverse = field line.reverse := by
  split
  case isTrue hreturn =>
    cases line with
    | nil => rfl
    | cons c rest =>
        rw [List.head?_cons, Option.some.injEq] at hreturn
        have htrim : trimChars (c :: rest).reverse = trimChars rest.reverse := by
          rw [List.reverse_cons, hreturn]
          exact trimChars_append_blank (by decide)
        rw [List.tail_cons, field, field, htrim]
  case isFalse => rfl

/-- The fields of two parts with a line break between them. -/
theorem filterMap_linesAux_append (before first second : List Char) :
    (linesAux before (first ++ '\n' :: second)).filterMap field =
      (linesAux before first).filterMap field ++ fields second := by
  induction first generalizing before with
  | nil =>
      have hline : linesAux before ('\n' :: second) =
          (if before.head? = some '\r' then before.tail else before).reverse :: lines second := by
        cases before <;> rfl
      rw [List.nil_append, hline, List.filterMap_cons, field_lineEnd]
      cases before with
      | nil => rfl
      | cons c rest =>
          show _ = ([(c :: rest).reverse].filterMap field) ++ fields second
          rw [List.filterMap_cons]
          cases field (c :: rest).reverse <;> rfl
  | cons c rest ih =>
      rw [List.cons_append, linesAux, linesAux]
      split
      · rw [List.filterMap_cons, List.filterMap_cons, ih]
        split <;> rfl
      · exact ih _

/-- The fields of two texts, one below the other. -/
theorem fields_append (first second : List Char) :
    fields (first ++ '\n' :: second) = fields first ++ fields second :=
  filterMap_linesAux_append [] first second

/-- The last line, unless nothing is in it. -/
theorem linesAux_line (before : List Char) (h : '\n' ∉ line) :
    linesAux before line =
      if line.reverse ++ before = [] then [] else [(line.reverse ++ before).reverse] := by
  induction line generalizing before with
  | nil => cases before <;> rfl
  | cons c rest ih =>
      rw [List.mem_cons, not_or] at h
      rw [linesAux, if_neg (Ne.symm h.1), ih _ h.2, List.reverse_cons, List.append_assoc,
        List.singleton_append]

/-- The fields of a single line. -/
theorem fields_line (h : '\n' ∉ line) : fields line = (field line).toList := by
  rw [fields, lines, linesAux_line [] h, List.append_nil]
  split
  case isTrue hnil =>
    rw [List.reverse_eq_nil_iff.mp hnil]
    rfl
  case isFalse =>
    rw [List.reverse_reverse, List.filterMap_cons, List.filterMap_nil]
    cases field line <;> rfl

/-- A text is a line, or a line with a text below. -/
theorem line_cases (text : List Char) :
    '\n' ∉ text ∨ ∃ line rest, '\n' ∉ line ∧ rest.length < text.length ∧
      text = line ++ '\n' :: rest := by
  by_cases h : '\n' ∈ text
  · obtain ⟨line, rest, htext, hline⟩ := List.eq_append_cons_of_mem h
    refine .inr ⟨line, rest, hline, ?_, htext⟩
    rw [htext, List.length_append, List.length_cons]
    omega
  · exact .inl h

/-! ## Fields that can be read -/

/-- A trimmed text does not start with a blank. -/
theorem not_blank_of_trimmed {c : Char} {rest : List Char}
    (h : trimChars (c :: rest) = c :: rest) : isWhitespace c = false := by
  by_contra hblank
  have htrim : trimChars (c :: rest) = trimChars rest :=
    blank_append_trimChars (by simpa [Blank] using hblank : Blank [c])
  obtain ⟨before, behind, -, -, hrest⟩ := exists_eq_trimChars rest
  have hlength := congrArg List.length hrest
  rw [← htrim, h, List.length_append, List.length_append, List.length_cons] at hlength
  omega

/-- A text is split at the first separator. -/
theorem splitOnce_eq_some {sep : Char} {lead rest : List Char}
    (h : splitOnce sep text = some (lead, rest)) : text = lead ++ sep :: rest ∧ sep ∉ lead := by
  by_cases hmem : sep ∈ text
  · obtain ⟨before, behind, rfl, hbefore⟩ := List.eq_append_cons_of_mem hmem
    cases (splitOnce_append hbefore).symm.trans h
    exact ⟨rfl, hbefore⟩
  · rw [splitOnce_eq_none hmem] at h
    cases h

/-- What is read off a line is well formed. -/
theorem wellFormed_of_field (hline : '\n' ∉ line) (h : field line = some found) :
    WellFormed found := by
  have htrimmed : '\n' ∉ trimChars line := fun hmem => hline (mem_of_mem_trimChars hmem)
  unfold field at h
  simp only at h
  split at h
  case isTrue => cases h
  case isFalse hsays =>
    rw [not_or] at hsays
    match hsplit : splitOnce ':' (trimChars line) with
    | none =>
        rw [hsplit] at h
        cases h
    | some (name, value) =>
        rw [hsplit] at h
        dsimp only at h
        split at h
        case isTrue => cases h
        case isFalse hvalue =>
          cases h
          obtain ⟨hparts, hplain⟩ := splitOnce_eq_some hsplit
          have hmem : ∀ {c}, c ∈ name ∨ c ∈ value → c ∈ trimChars line := by
            intro c hc
            rw [hparts, List.mem_append, List.mem_cons]
            rcases hc with hc | hc
            · exact .inl hc
            · exact .inr (.inr hc)
          refine ⟨⟨trimChars_trimChars name, fun hc => hplain (mem_of_mem_trimChars hc),
            fun hc => htrimmed (hmem (.inl (mem_of_mem_trimChars hc))), ?_⟩,
            ⟨trimChars_trimChars value, hvalue,
              fun hc => htrimmed (hmem (.inr (mem_of_mem_trimChars hc)))⟩⟩
          -- The name starts where the line does, which is not with a `#`.
          cases name with
          | nil =>
              show ([] : List Char).head? ≠ some '#'
              decide
          | cons c rest =>
              have hstart : isWhitespace c = false := by
                have htrim := trimChars_trimChars line
                rw [hparts] at htrim
                exact not_blank_of_trimmed htrim
              rw [← List.singleton_append, trimChars_append (List.cons_ne_nil c []) (by simpa),
                List.singleton_append, List.head?_cons]
              have hhead := hsays.2
              rwa [hparts] at hhead

/-- A text has only such fields. -/
theorem wellFormed_of_mem_fields (h : found ∈ fields text) : WellFormed found := by
  induction hlength : text.length using Nat.strong_induction_on generalizing text with
  | _ length ih =>
      rcases line_cases text with hline | ⟨line, rest, hline, hless, rfl⟩
      · rw [fields_line hline, Option.mem_toList] at h
        exact wellFormed_of_field hline h
      · rw [fields_append, fields_line hline, List.mem_append, Option.mem_toList] at h
        rcases h with h | h
        · exact wellFormed_of_field hline h
        · exact ih _ (hlength ▸ hless) h rfl

/-! ## Fields that are written -/

/-- There is no whitespace around the line of a field. -/
theorem trimChars_render (h : WellFormed found) : trimChars (render found) = render found := by
  obtain ⟨name, value⟩ := found
  have hend : trimEndMatches isWhitespace (' ' :: value) = ' ' :: value := by
    have htrimmed := h.value.trimmed
    obtain ⟨c, rest, rfl⟩ := List.exists_cons_of_ne_nil h.value.ne_nil
    have hc := not_blank_of_trimmed htrimmed
    have hrest : c :: trimEndMatches isWhitespace rest = c :: rest := by
      rw [← List.singleton_append, trimChars_append (List.cons_ne_nil c []) (by simpa)] at htrimmed
      exact htrimmed
    calc trimEndMatches isWhitespace ([' '] ++ c :: rest)
        = [' '] ++ c :: trimEndMatches isWhitespace rest := trimEnd_append_cons hc
      _ = ' ' :: c :: rest := by rw [hrest]; rfl
  have hstart : (render (name, value)).dropWhile isWhitespace = render (name, value) := by
    cases name with
    | nil => rfl
    | cons c rest =>
        have hc := not_blank_of_trimmed h.name.trimmed
        exact List.dropWhile_cons_of_neg (by simp [hc])
  rw [trimChars, hstart, render, trimEnd_append_cons (by decide), hend]

/-- A field is read as it was written. -/
theorem field_render (h : WellFormed found) : field (render found) = some found := by
  obtain ⟨name, value⟩ := found
  have htrim : trimChars (render (name, value)) = render (name, value) := trimChars_render h
  have hvalue : trimChars (' ' :: value) = value :=
    (blank_append_trimChars (by decide : Blank [' '])).trans h.value.trimmed
  have hsays : ¬ (render (name, value) = [] ∨ (render (name, value)).head? = some '#') := by
    rintro (hnil | hcomment)
    · exact List.append_ne_nil_of_right_ne_nil name (List.cons_ne_nil _ _) hnil
    · cases name with
      | nil =>
          rw [render, List.nil_append, List.head?_cons] at hcomment
          exact absurd hcomment (by decide)
      | cons c rest => exact h.name.comment hcomment
  have hsplit : splitOnce ':' (render (name, value)) = some (name, ' ' :: value) :=
    splitOnce_append h.name.plain
  rw [field]
  simp only [htrim, if_neg hsays, hsplit, hvalue, if_neg h.value.ne_nil]
  rw [h.name.trimmed]

/-- A field is written on one line. -/
theorem newline_not_mem_render (h : WellFormed found) : '\n' ∉ render found := by
  unfold render
  simp [h.name.line, h.value.line]

/-- Written fields are read back. -/
theorem fields_renderAll {all : List (List Char × List Char)}
    (h : ∀ found ∈ all, WellFormed found) : fields (renderAll all) = all := by
  induction all with
  | nil => rfl
  | cons found rest ih =>
      have hfound := h found List.mem_cons_self
      rw [renderAll, List.flatMap_cons, ← renderAll, List.append_assoc, List.singleton_append,
        fields_append, fields_line (newline_not_mem_render hfound), field_render hfound,
        ih fun other hother => h other (List.mem_cons_of_mem _ hother)]
      rfl

end FieldLines
