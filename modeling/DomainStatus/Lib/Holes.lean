import DomainStatus.Lib.Text

/-!
# Texts with holes

A text with holes, each of which has a name that stands in the text until the hole is filled. A
program that does not keep track of the holes fills them with one `str::replace` after the other,
which also reads names that are not holes: in the texts that it has filled in, across their ends, or
in a part of a longer name. Here each character is marked with the hole whose name it is part of, so
that it can be told what a replacement reads. By `run_reads_iff` it reads nothing but holes exactly
when each name, in the text as it is at its turn, occurs only as that hole. Then the result is the
text with the holes filled.
-/

namespace Holes

variable {κ : Type*}

/-- A text with holes. -/
abbrev Template (κ : Type*) :=
  List (Char ⊕ κ)

/-- Characters, each with the hole whose name it is part of. -/
abbrev Marked (κ : Type*) :=
  List (Char × Option κ)

/-- The characters without their marks. -/
def chars (text : Marked κ) : List Char :=
  text.map Prod.fst

/-- A text that is part of no name. -/
def plain (text : List Char) : Marked κ :=
  text.map fun c => (c, none)

/-! ## What a replacement reads -/

/-- Sets off the occurrences of a text that a replacement finds. The number counts the characters of
an occurrence that are still to be passed over. -/
def setOffAux (needle : List Char) : ℕ → Marked κ → List (Char × Option κ ⊕ Marked κ)
  | _, [] => []
  | skip + 1, _ :: rest => setOffAux needle skip rest
  | 0, c :: rest =>
      if needle.isPrefixOf (chars (c :: rest)) then
        .inr ((c :: rest).take needle.length) :: setOffAux needle (needle.length - 1) rest
      else .inl c :: setOffAux needle 0 rest

/-- The characters of a text, with the places of the needle set off. -/
def setOff (needle : List Char) (text : Marked κ) : List (Char × Option κ ⊕ Marked κ) :=
  setOffAux needle 0 text

/-- Puts a text in the place of what is set off. -/
def put (value : Marked κ) (parts : List (Char × Option κ ⊕ Marked κ)) : Marked κ :=
  parts.flatMap (Sum.elim (fun c => [c]) fun _ => value)

/-- What is set off. -/
def reads (parts : List (Char × Option κ ⊕ Marked κ)) : List (Marked κ) :=
  parts.filterMap Sum.getRight?

section

variable {needle : List Char} {text : Marked κ} {c : Char × Option κ}

@[simp] theorem reads_inl (parts : List (Char × Option κ ⊕ Marked κ)) :
    reads (.inl c :: parts) = reads parts := rfl

@[simp] theorem reads_inr (found : Marked κ) (parts : List (Char × Option κ ⊕ Marked κ)) :
    reads (.inr found :: parts) = found :: reads parts := rfl

@[simp] theorem put_inl (value : Marked κ) (parts : List (Char × Option κ ⊕ Marked κ)) :
    put value (.inl c :: parts) = c :: put value parts := rfl

@[simp] theorem put_inr (value found : Marked κ) (parts : List (Char × Option κ ⊕ Marked κ)) :
    put value (.inr found :: parts) = value ++ put value parts := rfl

/-- Characters to skip are dropped. -/
theorem setOffAux_eq_drop (needle : List Char) (skip : ℕ) (text : Marked κ) :
    setOffAux needle skip text = setOff needle (text.drop skip) := by
  induction skip generalizing text with
  | zero => rfl
  | succ skip ih =>
      cases text with
      | nil => rfl
      | cons c rest => exact ih rest

/-- A character at which no occurrence starts. -/
theorem setOff_cons (h : ¬ needle <+: chars (c :: text)) :
    setOff needle (c :: text) = .inl c :: setOff needle text := by
  show (if needle.isPrefixOf (chars (c :: text)) then _ else _) = _
  rw [if_neg (by simpa using h)]
  rfl

/-- An occurrence at the start. -/
theorem setOff_append {found : Marked κ} (hne : found ≠ []) (hfound : chars found = needle)
    (text : Marked κ) :
    setOff needle (found ++ text) = .inr found :: setOff needle text := by
  obtain ⟨c, rest, rfl⟩ := List.exists_cons_of_ne_nil hne
  have hlength : needle.length = rest.length + 1 := by
    rw [← hfound, chars, List.length_map, List.length_cons]
  have hleads : needle.isPrefixOf (chars (c :: (rest ++ text))) = true := by
    rw [List.isPrefixOf_iff_prefix, ← hfound]
    exact ⟨chars text, by simp [chars]⟩
  show (if needle.isPrefixOf (chars (c :: (rest ++ text))) then _ else _) = _
  rw [if_pos hleads, setOffAux_eq_drop, hlength]
  simp

/-- A place at the front is set off. -/
theorem setOff_of_prefix (hne : needle ≠ []) (h : needle <+: chars text) :
    setOff needle text =
      .inr (text.take needle.length) :: setOff needle (text.drop needle.length) := by
  obtain ⟨after, hafter⟩ := h
  have hfound : chars (text.take needle.length) = needle := by
    rw [chars, List.map_take]
    show (chars text).take needle.length = needle
    rw [← hafter, List.take_left]
  have hsome : text.take needle.length ≠ [] := fun hnil => hne (by rw [← hfound, hnil]; rfl)
  have hsplit := setOff_append hsome hfound (text.drop needle.length)
  rwa [List.take_append_drop] at hsplit

/-- On the characters alone this is `str::replace`. -/
theorem chars_put_setOff (needle : List Char) (value text : Marked κ) :
    chars (put value (setOff needle text)) = Text.replace (chars text) needle (chars value) := by
  have haux : ∀ (skip : ℕ) (text : Marked κ), chars (put value (setOffAux needle skip text)) =
      Text.replaceAux needle (chars value) skip (chars text) := by
    intro skip text
    induction text generalizing skip with
    | nil => cases skip <;> rfl
    | cons c rest ih =>
        cases skip with
        | succ skip => exact ih skip
        | zero =>
            simp only [setOffAux, chars, List.map_cons, Text.replaceAux]
            split
            · simp only [put, List.flatMap_cons, Sum.elim_inr, List.map_append]
              exact congrArg _ (ih _)
            · simp only [put, List.flatMap_cons, Sum.elim_inl, List.map_append]
              exact congrArg _ (ih 0)
  exact haux 0 text

/-- What is set off is an occurrence in the text. -/
theorem exists_append_of_mem_reads {found : Marked κ} (h : found ∈ reads (setOff needle text)) :
    chars found = needle ∧ ∃ before after, text = before ++ found ++ after := by
  have haux : ∀ (skip : ℕ) (text : Marked κ), found ∈ reads (setOffAux needle skip text) →
      chars found = needle ∧ ∃ before after, text = before ++ found ++ after := by
    intro skip text hfound
    induction text generalizing skip with
    | nil => cases skip <;> cases hfound
    | cons c rest ih =>
        have hlater : ∀ other, found ∈ reads (setOffAux needle other rest) →
            chars found = needle ∧ ∃ before after, c :: rest = before ++ found ++ after := by
          intro other hother
          obtain ⟨hchars, before, after, hrest⟩ := ih other hother
          exact ⟨hchars, c :: before, after, by rw [hrest]; rfl⟩
        cases skip with
        | succ skip => exact hlater skip hfound
        | zero =>
            rw [setOffAux] at hfound
            split at hfound
            case isTrue hleads =>
              rcases List.mem_cons.mp hfound with rfl | hfound
              · obtain ⟨after, hafter⟩ := List.isPrefixOf_iff_prefix.mp hleads
                refine ⟨?_, [], (c :: rest).drop needle.length, by simp⟩
                rw [chars, List.map_take]
                show (chars (c :: rest)).take needle.length = needle
                rw [← hafter, List.take_left]
              · exact hlater _ hfound
            case isFalse => exact hlater 0 hfound
  exact haux 0 text h

/-- No end of the text is a start of it, the empty one and the whole text apart. -/
def Unbordered (needle : List Char) : Prop :=
  ∀ front back, needle = front ++ back → front ≠ [] → back ≠ [] → ¬ back <+: needle

/-- Two occurrences of such a text do not overlap. -/
theorem Unbordered.length_le (hborder : Unbordered needle) {front tail : List Char}
    (hne : front ≠ []) (h : needle <+: front ++ (needle ++ tail)) :
    needle.length ≤ front.length := by
  by_contra hlong
  have hfront : front <+: needle :=
    List.prefix_of_prefix_length_le (List.prefix_append _ _) h (by omega)
  obtain ⟨back, hback⟩ := hfront
  have hback_ne : back ≠ [] := by
    intro hnil
    rw [hnil, List.append_nil] at hback
    rw [hback] at hlong
    exact hlong le_rfl
  have hlength : back.length ≤ needle.length := by
    rw [← hback, List.length_append]
    omega
  rw [← hback, List.append_assoc, List.prefix_append_right_inj, ← List.append_assoc, hback] at h
  exact hborder front back hback.symm hne hback_ne
    (List.prefix_of_prefix_length_le h (List.prefix_append _ _) hlength)

/-- Every occurrence of a text that does not overlap itself is set off. -/
theorem mem_reads_of_unbordered (hborder : Unbordered needle) {found : Marked κ}
    (hne : found ≠ []) (hfound : chars found = needle) (before after : Marked κ) :
    found ∈ reads (setOff needle (before ++ found ++ after)) := by
  have hneedle : needle ≠ [] := fun hnil => hne (List.map_eq_nil_iff.mp (hfound.trans hnil))
  -- By induction on how much there is before the occurrence.
  induction hlength : before.length using Nat.strong_induction_on generalizing before with
  | _ length ih =>
      cases before with
      | nil =>
          rw [List.nil_append, setOff_append hne hfound after]
          exact List.mem_cons_self
      | cons c rest =>
          by_cases hleads : needle <+: chars (c :: (rest ++ found ++ after))
          · have hshort : needle.length ≤ (c :: rest).length := by
              have hwhole : chars (c :: (rest ++ found ++ after)) =
                  chars (c :: rest) ++ (needle ++ chars after) := by simp [chars, ← hfound]
              rw [hwhole] at hleads
              have hle := hborder.length_le (by simp [chars]) hleads
              rwa [chars, List.length_map] at hle
            have hdrop : (c :: (rest ++ found ++ after)).drop needle.length =
                (c :: rest).drop needle.length ++ found ++ after := by
              rw [List.append_assoc, ← List.cons_append, List.drop_append_of_le_length hshort,
                List.append_assoc]
            have hless : ((c :: rest).drop needle.length).length < length := by
              have hpositive : 0 < needle.length := List.length_pos_iff.mpr hneedle
              simp only [List.length_drop, List.length_cons] at hlength ⊢
              omega
            rw [List.cons_append, List.cons_append, setOff_of_prefix hneedle hleads, hdrop]
            exact List.mem_cons_of_mem _ (ih _ hless _ rfl)
          · rw [List.cons_append, List.cons_append, setOff_cons hleads]
            exact ih rest.length (by rw [← hlength]; simp) rest rfl

end

/-! ## Filling the holes -/

variable (spell : κ → List Char)

/-- The name of a hole. -/
def name (hole : κ) : Marked κ :=
  (spell hole).map fun c => (c, some hole)

/-- The text of a template, with the names of its holes. -/
def marked (template : Template κ) : Marked κ :=
  template.flatMap (Sum.elim (fun c => [(c, none)]) (name spell))

/-- The name of the hole occurs in the text only as that hole. -/
def OnlyAsHole (text : Marked κ) (hole : κ) : Prop :=
  ∀ before found after, text = before ++ found ++ after → chars found = spell hole →
    found = name spell hole

/-- Replaces the name of each hole by its text, one after the other, and returns what was read
besides. -/
def run : List (κ × List Char) → Marked κ → List (Marked κ) × Marked κ
  | [], text => ([], text)
  | (hole, value) :: rest, text =>
      let parts := setOff (spell hole) text
      let (later, after) := run rest (put (plain value) parts)
      (reads parts ++ later, after)

section

variable {spell} {text : Marked κ} {hole : κ} {template : Template κ}

/-- What holds of a text holds of its rest. -/
theorem OnlyAsHole.of_append {front : Marked κ} (h : OnlyAsHole spell (front ++ text) hole) :
    OnlyAsHole spell text hole := by
  intro before found after htext hfound
  exact h (front ++ before) found after (by rw [htext]; simp) hfound

/-- An occurrence at the start of a text is the hole. -/
theorem OnlyAsHole.of_prefix (h : OnlyAsHole spell text hole)
    (hleads : spell hole <+: chars text) :
    ∃ rest, text = name spell hole ++ rest := by
  obtain ⟨tail, htail⟩ := hleads
  have hfound : chars (text.take (spell hole).length) = spell hole := by
    rw [chars, List.map_take]
    show (chars text).take (spell hole).length = spell hole
    rw [← htail, List.take_left]
  have hname := h [] (text.take (spell hole).length) (text.drop (spell hole).length)
    (by simp) hfound
  exact ⟨text.drop (spell hole).length, by rw [← hname, List.take_append_drop]⟩

/-- Characters that are not of the hole are passed over. -/
theorem setOff_pass (hne : spell hole ≠ []) {front : Marked κ}
    (hfront : ∀ c ∈ front, c.2 ≠ some hole) (h : OnlyAsHole spell (front ++ text) hole) :
    setOff (spell hole) (front ++ text) = front.map .inl ++ setOff (spell hole) text := by
  induction front with
  | nil => rfl
  | cons c rest ih =>
      have hnone : ¬ spell hole <+: chars (c :: (rest ++ text)) := by
        intro hleads
        obtain ⟨tail, htail⟩ := h.of_prefix hleads
        obtain ⟨first, others, hspell⟩ := List.exists_cons_of_ne_nil hne
        rw [name, hspell, List.map_cons, List.cons_append, List.cons_append,
          List.cons.injEq] at htail
        exact hfront c List.mem_cons_self (by rw [htail.1])
      rw [List.cons_append, setOff_cons hnone, List.map_cons, List.cons_append]
      refine congrArg _ (ih (fun other hother => hfront other (List.mem_cons_of_mem c hother)) ?_)
      have hcons : OnlyAsHole spell ([c] ++ (rest ++ text)) hole := h
      exact hcons.of_append

/-- Plain characters stay. -/
theorem put_map_inl (value front : Marked κ) (parts : List (Char × Option κ ⊕ Marked κ)) :
    put value (front.map .inl ++ parts) = front ++ put value parts := by
  induction front with
  | nil => rfl
  | cons c rest ih => simpa [put] using ih

@[simp] theorem marked_inl (c : Char) (template : Template κ) :
    marked spell (.inl c :: template) = [(c, none)] ++ marked spell template := rfl

@[simp] theorem marked_inr (hole : κ) (template : Template κ) :
    marked spell (.inr hole :: template) = name spell hole ++ marked spell template := rfl

/-- The marks of a plain front. -/
theorem marked_map_inl (value : List Char) (template : Template κ) :
    marked spell (value.map .inl ++ template) = plain value ++ marked spell template := by
  induction value with
  | nil => rfl
  | cons c rest ih => exact congrArg _ ih

/-- Each character of a name is marked with the hole. -/
theorem mem_name {c : Char × Option κ} (h : c ∈ name spell hole) : c.2 = some hole := by
  obtain ⟨other, -, rfl⟩ := List.mem_map.mp h
  rfl

/-- A plain text has no marks to lose. -/
theorem chars_plain (text : List Char) : chars (plain text : Marked κ) = text := by
  rw [chars, plain, List.map_map]
  exact List.map_id _

/-- A hole is written as it is spelled. -/
theorem chars_name : chars (name spell hole) = spell hole := by
  rw [chars, name, List.map_map]
  exact List.map_id _

/-- A replacement reads nothing but holes exactly when the name occurs only as its hole. -/
theorem reads_iff (hne : spell hole ≠ []) (hborder : Unbordered (spell hole))
    (hspell : Function.Injective spell) :
    (∀ found ∈ reads (setOff (spell hole) text), ∃ other, found = name spell other) ↔
      OnlyAsHole spell text hole := by
  constructor
  · intro hreads before found after htext hfound
    have hfound_ne : found ≠ [] := fun hnil => hne (by rw [← hfound, hnil]; rfl)
    have hmem := mem_reads_of_unbordered hborder hfound_ne hfound before after
    obtain ⟨other, rfl⟩ := hreads found (htext ▸ hmem)
    rw [chars_name] at hfound
    rw [hspell hfound]
  · intro honly found hfound
    obtain ⟨hchars, before, after, htext⟩ := exists_append_of_mem_reads hfound
    exact ⟨hole, honly before found after htext hchars⟩

/-- On the characters alone a run is a sequence of `str::replace`. -/
theorem chars_run (values : List (κ × List Char)) (text : Marked κ) :
    chars (run spell values text).2 =
      values.foldl (fun text (hole, value) => Text.replace text (spell hole) value)
        (chars text) := by
  induction values generalizing text with
  | nil => rfl
  | cons first rest ih =>
      obtain ⟨hole, value⟩ := first
      simp only [run, List.foldl_cons]
      rw [ih, chars_put_setOff, chars_plain]

end

variable [DecidableEq κ]

/-- Fills a hole, wherever it is. -/
def fill (hole : κ) (value : List Char) (template : Template κ) : Template κ :=
  template.flatMap (Sum.elim (fun c => [.inl c]) fun other =>
    if other = hole then value.map .inl else [.inr other])

/-- The name of each hole occurs only as that hole, once the holes before it are filled. -/
def CleanAlong : List (κ × List Char) → Template κ → Prop
  | [], _ => True
  | (hole, value) :: rest, template =>
      OnlyAsHole spell (marked spell template) hole ∧ CleanAlong rest (fill hole value template)

/-- Fills several holes. -/
def fillAll (values : List (κ × List Char)) (template : Template κ) : Template κ :=
  values.foldl (fun template (hole, value) => fill hole value template) template

variable {spell} {hole : κ} {values : List (κ × List Char)} {template : Template κ}

/-- A plain character is not filled. -/
theorem fill_inl (c : Char) (value : List Char) :
    fill hole value (.inl c :: template) = .inl c :: fill hole value template := rfl

/-- A hole is filled if it is the one, and else left. -/
theorem fill_inr (other : κ) (value : List Char) :
    fill hole value (.inr other :: template) =
      (if other = hole then value.map .inl else [.inr other]) ++ fill hole value template := rfl

/-- A replacement that reads a name only as its hole fills the hole. -/
theorem put_setOff (hne : spell hole ≠ []) (h : OnlyAsHole spell (marked spell template) hole)
    (value : List Char) :
    put (plain value) (setOff (spell hole) (marked spell template)) =
      marked spell (fill hole value template) := by
  induction template with
  | nil => rfl
  | cons piece rest ih =>
      cases piece with
      | inl c =>
          rw [marked_inl] at h ⊢
          have hfront : ∀ m ∈ [((c, none) : Char × Option κ)], m.2 ≠ some hole := by simp
          rw [setOff_pass hne hfront h, put_map_inl, ih h.of_append, fill_inl, marked_inl]
      | inr other =>
          rw [marked_inr] at h ⊢
          rw [fill_inr]
          by_cases hother : other = hole
          · subst hother
            have hname : name spell other ≠ [] := by simpa [name] using hne
            rw [setOff_append hname chars_name, if_pos rfl, marked_map_inl, ← ih h.of_append]
            rfl
          · have hfront : ∀ m ∈ name spell other, m.2 ≠ some hole := by
              intro m hm heq
              rw [mem_name hm, Option.some.injEq] at heq
              exact hother heq
            rw [setOff_pass hne hfront h, put_map_inl, ih h.of_append, if_neg hother]
            rfl

/-- A sequence of replacements reads nothing but holes exactly when each name, at its turn, occurs
only as its hole. -/
theorem run_reads_iff (hne : ∀ hole, spell hole ≠ []) (hborder : ∀ hole, Unbordered (spell hole))
    (hspell : Function.Injective spell) (values : List (κ × List Char)) (template : Template κ) :
    (∀ found ∈ (run spell values (marked spell template)).1, ∃ hole, found = name spell hole) ↔
      CleanAlong spell values template := by
  induction values generalizing template with
  | nil => simp [run, CleanAlong]
  | cons first rest ih =>
      obtain ⟨hole, value⟩ := first
      have hreads : (∀ found ∈ reads (setOff (spell hole) (marked spell template)),
          ∃ other, found = name spell other) ↔ OnlyAsHole spell (marked spell template) hole :=
        reads_iff (hne hole) (hborder hole) hspell
      rw [CleanAlong, ← ih, ← hreads]
      simp only [run, List.mem_append, or_imp, forall_and]
      refine and_congr_right fun hfirst => ?_
      rw [put_setOff (hne hole) (hreads.mp hfirst)]

/-- Then the holes are filled. -/
theorem run_of_cleanAlong (hne : ∀ hole, spell hole ≠ []) (h : CleanAlong spell values template) :
    (run spell values (marked spell template)).2 = marked spell (fillAll values template) := by
  induction values generalizing template with
  | nil => rfl
  | cons first rest ih =>
      obtain ⟨hole, value⟩ := first
      simp only [run]
      rw [put_setOff (hne hole) h.1 value]
      exact ih h.2

/-- Filling the holes one after the other is filling them at once: the texts have no holes. -/
theorem fillAll_eq (values : List (κ × List Char)) (template : Template κ) :
    fillAll values template = template.flatMap (Sum.elim (fun c => [.inl c]) fun hole =>
      (values.lookup hole).elim [.inr hole] fun value => value.map .inl) := by
  induction values generalizing template with
  | nil =>
      have hpieces : (Sum.elim (fun c => [.inl c]) fun hole => [.inr hole]) =
          fun piece : Char ⊕ κ => [piece] := by
        funext piece
        cases piece <;> rfl
      show template = template.flatMap (Sum.elim (fun c => [.inl c]) fun hole => [.inr hole])
      rw [hpieces, List.flatMap_singleton']
  | cons first rest ih =>
      obtain ⟨hole, value⟩ := first
      show fillAll rest (fill hole value template) = _
      rw [ih, fill, List.flatMap_assoc]
      refine List.flatMap_congr fun piece _ => ?_
      cases piece with
      | inl c => rfl
      | inr other =>
          simp only [Sum.elim_inr, List.lookup_cons]
          by_cases hother : other = hole
          · subst hother
            rw [if_pos rfl, beq_self_eq_true, List.flatMap_map]
            exact List.map_eq_flatMap.symm
          · have hbeq : (other == hole) = false := beq_false_of_ne hother
            rw [if_neg hother, hbeq, List.flatMap_singleton]
            rfl

end Holes
