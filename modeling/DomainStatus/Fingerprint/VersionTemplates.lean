import DomainStatus.Fingerprint.Version
import DomainStatus.Lib.Holes
import Mathlib.Data.List.Infix

/-!
# Placeholders in version templates

The templates of `src/fingerprint/patterns/version.rs` as texts with holes. Each placeholder of a
template, read from left to right and as long as possible, is a hole for the text of its group. Read
`substituteAtOnce` and `templateReads` first. By `version_template_iff` the version is the template
with the texts of the groups in it, and nothing but placeholders was read as one, exactly when the
texts and the template go together.
-/

namespace DomainStatus.Fingerprint

open Holes

/-- A placeholder, with two backslashes or with one. -/
structure Placeholder where
  double : Bool
  number : ℕ
  deriving DecidableEq

/-- How a placeholder is written. -/
def Placeholder.spell (placeholder : Placeholder) : List Char :=
  if placeholder.double then placeholderDouble placeholder.number
  else placeholderSingle placeholder.number

/-- The number from 1 that a text starts with. -/
def numberAt (text : List Char) : Option ℕ :=
  let digits := text.takeWhile Char.isDigit
  if digits = [] ∨ digits.head? = some '0' then none else some (Text.digitsValue digits)

/-- The placeholder that a text starts with. -/
def placeholderAt : List Char → Option Placeholder
  | '\\' :: '\\' :: rest => (numberAt rest).map fun number => { double := true, number := number }
  | '\\' :: rest => (numberAt rest).map fun number => { double := false, number := number }
  | _ => none

/-- Reads a template from left to right. The number counts the characters of a placeholder that are
still to be passed over. -/
def readTemplateAux : ℕ → List Char → Template Placeholder
  | _, [] => []
  | skip + 1, _ :: rest => readTemplateAux skip rest
  | 0, c :: rest =>
      match placeholderAt (c :: rest) with
      | some placeholder => .inr placeholder :: readTemplateAux (placeholder.spell.length - 1) rest
      | none => .inl c :: readTemplateAux 0 rest

/-- The characters and the placeholders of a template, from left to right. -/
def readTemplate (template : List Char) : Template Placeholder :=
  readTemplateAux 0 template

/-- The text of a group. A group that did not match or is not there has none. -/
def groupText (captures : Captures) (number : ℕ) : List Char :=
  (captures[number]?.join.map String.toList).getD []

/-- The template with all placeholders replaced by the texts of their groups at once. -/
def substituteAtOnce (versionExpr : List Char) (captures : Captures) : List Char :=
  (readTemplate versionExpr).flatMap (Sum.elim (fun c => [c]) fun placeholder =>
    groupText captures placeholder.number)

/-- The version that `extract_version_from_template` builds before it cuts off anything. -/
def builtVersion (versionExpr : List Char) (captures : Captures) : List Char :=
  removePlaceholders false (substituteVersion versionExpr captures)

/-! ## What is read as a placeholder -/

/-- Sets off what `\\\d+` matches. The number counts the characters of a match that are still to be
passed over. -/
def setOffMatchesAux {κ : Type} : ℕ → Marked κ → List (Char × Option κ ⊕ Marked κ)
  | _, [] => []
  | skip + 1, _ :: rest => setOffMatchesAux skip rest
  | 0, c :: rest =>
      let digits := rest.takeWhile fun d => RegexCrate.isDecimalDigit d.1
      if c.1 = '\\' ∧ digits ≠ [] then
        .inr (c :: digits) :: setOffMatchesAux digits.length rest
      else .inl c :: setOffMatchesAux 0 rest

/-- The characters of a text, with the matches of the pattern set off. -/
def setOffMatches {κ : Type} (text : Marked κ) : List (Char × Option κ ⊕ Marked κ) :=
  setOffMatchesAux 0 text

/-- The placeholders of a group and its text. A group without text has none. -/
def groupFillings (captures : Captures) (i : ℕ) : List (Placeholder × List Char) :=
  match captures[i]?.join with
  | some value =>
      [({ double := true, number := i }, value.toList),
        ({ double := false, number := i }, value.toList)]
  | none => []

/-- The placeholders that are replaced, in order. -/
def fillings (versionExpr : List Char) (captures : Captures) : List (Placeholder × List Char) :=
  ((groupsDescending captures).filter fun i =>
    (placeholdersInTemplate versionExpr).contains i).flatMap (groupFillings captures)

/-- What is replaced or removed on the way to the version. Each character is marked with the
placeholder of the template that it is part of, if any. -/
def templateReads (versionExpr : List Char) (captures : Captures) : List (Marked Placeholder) :=
  let (filled, text) := run Placeholder.spell (fillings versionExpr captures)
    (marked Placeholder.spell (readTemplate versionExpr))
  let removed := setOffMatches text
  -- The version is searched for placeholders a second time.
  filled ++ reads removed ++ reads (setOffMatches (put [] removed))

/-- No digit comes next. -/
def NoDigit {κ : Type} (text : Marked κ) : Prop :=
  ∀ d ∈ text.head?, RegexCrate.isDecimalDigit d.1 = false

/-- `\\\d+` matches a character and the digits behind it, before the rest of the text. -/
structure IsMatch {κ : Type} (c : Char × Option κ) (digits after : Marked κ) : Prop where
  backslash : c.1 = '\\'
  ne_nil : digits ≠ []
  digits : ∀ d ∈ digits, RegexCrate.isDecimalDigit d.1 = true
  ends : NoDigit after

/-- Each backslash with the digits behind it is a placeholder. -/
def OnlyPlaceholders (text : Marked Placeholder) : Prop :=
  ∀ before c digits after, text = before ++ c :: (digits ++ after) → IsMatch c digits after →
    ∃ placeholder : Placeholder, c :: digits = name Placeholder.spell placeholder

/-- The texts of the groups and the template go together. -/
structure Unambiguous (versionExpr : List Char) (captures : Captures) : Prop where
  /-- From the last group down, with the groups behind it filled in, a placeholder of a group occurs
  only where the template has it. -/
  groups : CleanAlong Placeholder.spell (fillings versionExpr captures) (readTemplate versionExpr)
  /-- With all groups filled in, what looks like a placeholder is one that is left. -/
  left : OnlyPlaceholders
    (marked Placeholder.spell (fillAll (fillings versionExpr captures) (readTemplate versionExpr)))
  /-- The groups from 100 on have no texts. -/
  beyond : ∀ placeholder, .inr placeholder ∈ readTemplate versionExpr → 99 < placeholder.number →
    groupText captures placeholder.number = []

/-! ## Placeholders -/

/-- No placeholder is spelled by the empty text. -/
theorem Placeholder.spell_ne_nil (placeholder : Placeholder) : placeholder.spell ≠ [] := by
  unfold Placeholder.spell placeholderDouble placeholderSingle
  split <;> exact List.cons_ne_nil _ _

/-- A written number has no backslash. -/
theorem backslash_ne_digit {number : ℕ} : '\\' ∉ (Nat.repr number).toList := by
  intro h
  exact absurd (Text.isDigit_of_mem_repr h) (by decide)

/-- Different placeholders are spelled differently. -/
theorem Placeholder.spell_injective : Function.Injective Placeholder.spell := by
  intro left right h
  obtain ⟨leftDouble, leftNumber⟩ := left
  obtain ⟨rightDouble, rightNumber⟩ := right
  cases leftDouble <;> cases rightDouble <;>
    simp only [Placeholder.spell, placeholderDouble, placeholderSingle, Bool.false_eq_true,
      if_false, if_true, List.cons.injEq, true_and] at h
  · rw [Text.repr_injective h]
  · exact absurd (h ▸ List.mem_cons_self) backslash_ne_digit
  · exact absurd (h ▸ List.mem_cons_self) backslash_ne_digit
  · rw [Text.repr_injective h]

/-- An end of a placeholder starts with a digit, or with the second backslash. -/
theorem Placeholder.spell_unbordered (placeholder : Placeholder) :
    Unbordered placeholder.spell := by
  obtain ⟨double, number⟩ := placeholder
  intro front back hsplit hfront hback hleads
  obtain ⟨c, front, rfl⟩ := List.exists_cons_of_ne_nil hfront
  obtain ⟨d, back, rfl⟩ := List.exists_cons_of_ne_nil hback
  cases double with
  | false =>
      simp only [Placeholder.spell, placeholderSingle, Bool.false_eq_true, if_false,
        List.cons_append, List.cons.injEq] at hsplit hleads
      obtain ⟨rfl, -⟩ := List.cons_prefix_cons.mp hleads
      have hdigit : '\\' ∈ (Nat.repr number).toList := by simp [hsplit.2]
      exact backslash_ne_digit hdigit
  | true =>
      simp only [Placeholder.spell, placeholderDouble, if_true, List.cons_append,
        List.cons.injEq] at hsplit hleads
      obtain ⟨rfl, hrest⟩ := List.cons_prefix_cons.mp hleads
      cases front with
      | nil =>
          obtain ⟨first, others, hrepr⟩ :=
            List.exists_cons_of_ne_nil (Text.repr_ne_nil number)
          simp only [List.nil_append, List.cons.injEq, true_and] at hsplit
          rw [← hsplit.2, hrepr] at hrest
          obtain ⟨rfl, -⟩ := List.cons_prefix_cons.mp hrest
          exact backslash_ne_digit (hrepr ▸ List.mem_cons_self)
      | cons f front =>
          simp only [List.cons_append, List.cons.injEq] at hsplit
          have hdigit : '\\' ∈ (Nat.repr number).toList := by simp [hsplit.2.2]
          exact backslash_ne_digit hdigit

/-- The placeholder at the start of a text. -/
theorem placeholderAt_spec {text : List Char} {placeholder : Placeholder}
    (h : placeholderAt text = some placeholder) :
    placeholder.spell <+: text ∧ 0 < placeholder.number := by
  have hnumber : ∀ (rest : List Char) (number : ℕ), numberAt rest = some number →
      (Nat.repr number).toList <+: rest ∧ 0 < number := by
    intro rest number hrest
    simp only [numberAt] at hrest
    split at hrest
    case isTrue => cases hrest
    case isFalse hdigits =>
      obtain ⟨hne, hzero⟩ := not_or.mp hdigits
      cases hrest
      obtain ⟨hrepr, hpositive⟩ := Text.repr_digitsValue hne
        (fun c hc => List.mem_takeWhile_imp hc) hzero
      rw [hrepr]
      exact ⟨List.takeWhile_prefix _, hpositive⟩
  unfold placeholderAt at h
  split at h
  next rest =>
    obtain ⟨number, hfound, rfl⟩ := Option.map_eq_some_iff.mp h
    obtain ⟨hleads, hpositive⟩ := hnumber rest number hfound
    exact ⟨(List.prefix_cons_inj _).mpr ((List.prefix_cons_inj _).mpr hleads), hpositive⟩
  next rest _ =>
    obtain ⟨number, hfound, rfl⟩ := Option.map_eq_some_iff.mp h
    obtain ⟨hleads, hpositive⟩ := hnumber rest number hfound
    exact ⟨(List.prefix_cons_inj _).mpr hleads, hpositive⟩
  · cases h

/-- Reading a template loses nothing, and numbers are from 1. -/
theorem readTemplate_spec (template : List Char) :
    chars (marked Placeholder.spell (readTemplate template)) = template ∧
      ∀ placeholder, .inr placeholder ∈ readTemplate template → 0 < placeholder.number := by
  have haux : ∀ (skip : ℕ) (text : List Char),
      chars (marked Placeholder.spell (readTemplateAux skip text)) = text.drop skip ∧
      ∀ placeholder, .inr placeholder ∈ readTemplateAux skip text → 0 < placeholder.number := by
    intro skip text
    induction text generalizing skip with
    | nil => cases skip <;> exact ⟨rfl, fun placeholder h => by cases h⟩
    | cons c rest ih =>
        cases skip with
        | succ skip => exact ih skip
        | zero =>
            simp only [readTemplateAux]
            split
            next found hfound =>
              obtain ⟨⟨tail, htail⟩, hpositive⟩ := placeholderAt_spec hfound
              obtain ⟨hchars, hnumbers⟩ := ih (found.spell.length - 1)
              constructor
              · obtain ⟨first, others, hspell⟩ := List.exists_cons_of_ne_nil found.spell_ne_nil
                rw [hspell, List.cons_append, List.cons.injEq] at htail
                rw [marked_inr, chars, List.map_append]
                show chars (name Placeholder.spell found) ++
                  chars (marked Placeholder.spell (readTemplateAux _ rest)) = c :: rest
                rw [hchars, chars_name, hspell, ← htail.1, ← htail.2]
                simp
              · intro other hother
                rcases List.mem_cons.mp hother with heq | hlater
                · cases heq
                  exact hpositive
                · exact hnumbers other hlater
            · obtain ⟨hchars, hnumbers⟩ := ih 0
              constructor
              · rw [marked_inl, chars, List.map_append]
                exact congrArg (c :: ·) hchars
              · intro other hother
                rcases List.mem_cons.mp hother with heq | hlater
                · cases heq
                · exact hnumbers other hlater
  exact haux 0 template

/-! ## Matches -/

section Matches

variable {κ : Type} {c : Char × Option κ} {digits after text : Marked κ}

/-- The search goes on behind what it skips. -/
theorem setOffMatchesAux_eq_drop (skip : ℕ) (text : Marked κ) :
    setOffMatchesAux skip text = setOffMatches (text.drop skip) := by
  induction skip generalizing text with
  | zero => rfl
  | succ skip ih =>
      cases text with
      | nil => rfl
      | cons c rest => exact ih rest

/-- No digit is taken where none stands. -/
theorem NoDigit.takeWhile (h : NoDigit after) :
    after.takeWhile (fun d => RegexCrate.isDecimalDigit d.1) = [] := by
  cases after with
  | nil => rfl
  | cons d rest => rw [List.takeWhile_cons, h d rfl, if_neg Bool.false_ne_true]

/-- A backslash and its digits are set off. -/
theorem setOffMatches_match (h : IsMatch c digits after) :
    setOffMatches (c :: (digits ++ after)) = .inr (c :: digits) :: setOffMatches after := by
  have hdigits : (digits ++ after).takeWhile (fun d => RegexCrate.isDecimalDigit d.1) =
      digits := by
    rw [List.takeWhile_append_of_pos h.digits, h.ends.takeWhile, List.append_nil]
  rw [setOffMatches, setOffMatchesAux, hdigits, if_pos ⟨h.backslash, h.ne_nil⟩,
    setOffMatchesAux_eq_drop, List.drop_left]

/-- Other characters are kept. -/
theorem setOffMatches_keep (h : c.1 = '\\' → NoDigit text) :
    setOffMatches (c :: text) = .inl c :: setOffMatches text := by
  rw [setOffMatches, setOffMatchesAux, if_neg fun hmatch => hmatch.2 (h hmatch.1).takeWhile]
  rfl

/-- Where a digit comes next, a backslash is the start of a match. -/
theorem exists_isMatch (hc : c.1 = '\\') (h : ¬ NoDigit text) :
    ∃ digits after, text = digits ++ after ∧ IsMatch c digits after := by
  let isDigit : Char × Option κ → Bool := fun d => RegexCrate.isDecimalDigit d.1
  refine ⟨text.takeWhile isDigit, text.dropWhile isDigit, List.takeWhile_append_dropWhile.symm, hc,
    fun hnil => h fun d hd => ?_, fun d hd => List.mem_takeWhile_imp (p := isDigit) hd,
    fun d hd => ?_⟩
  · obtain ⟨rest, rfl⟩ := List.head?_eq_some_iff.mp hd
    by_contra hdigit
    rw [List.takeWhile_cons, if_pos (Bool.of_not_eq_false hdigit)] at hnil
    exact List.cons_ne_nil _ _ hnil
  · have hnot := List.head?_dropWhile_not isDigit text
    rw [Option.mem_def.mp hd] at hnot
    exact hnot

/-- A text from its end on: a character at which nothing matches, or a match, is put before it. -/
theorem matches_induction {motive : Marked κ → Prop} (nil : motive [])
    (keep : ∀ c text, (c.1 = '\\' → NoDigit text) → motive text → motive (c :: text))
    (found : ∀ c digits after, IsMatch c digits after → motive after →
      motive (c :: (digits ++ after))) (text : Marked κ) : motive text := by
  induction hlength : text.length using Nat.strong_induction_on generalizing text with
  | _ length ih =>
      cases text with
      | nil => exact nil
      | cons c rest =>
          rw [List.length_cons] at hlength
          by_cases hkeep : c.1 = '\\' → NoDigit rest
          · exact keep c rest hkeep (ih rest.length (by omega) rest rfl)
          · obtain ⟨hc, hdigit⟩ := Classical.not_imp.mp hkeep
            obtain ⟨digits, after, rfl, hmatch⟩ := exists_isMatch hc hdigit
            rw [List.length_append] at hlength
            exact found c digits after hmatch (ih after.length (by omega) after rfl)

/-- The digits behind a backslash are removed with it. -/
theorem removePlaceholders_digits (hdigits : ∀ d ∈ digits, RegexCrate.isDecimalDigit d.1 = true)
    (hends : NoDigit after) :
    removePlaceholders true (chars (digits ++ after)) = removePlaceholders false (chars after) := by
  induction digits with
  | nil =>
      cases after with
      | nil => rfl
      | cons d rest =>
          have hd : RegexCrate.isDecimalDigit d.1 = false := hends d rfl
          simp [chars, removePlaceholders, hd]
  | cons d rest ih =>
      have hd := hdigits d List.mem_cons_self
      have hrest := ih fun other hother => hdigits other (List.mem_cons_of_mem d hother)
      show removePlaceholders true (d.1 :: chars (rest ++ after)) = _
      rw [removePlaceholders, hd, Bool.true_and, if_pos rfl]
      exact hrest

/-- On the characters alone the matches are what `removePlaceholders` removes. -/
theorem chars_put_setOffMatches (text : Marked κ) :
    chars (put [] (setOffMatches text)) = removePlaceholders false (chars text) := by
  induction text using matches_induction with
  | nil => rfl
  | keep c text h ih =>
      have hnone : (decide (c.1 = '\\') && (chars text).head?.any RegexCrate.isDecimalDigit) =
          false := by
        cases text with
        | nil => simp [chars]
        | cons d rest =>
            by_cases hbackslash : c.1 = '\\'
            · have hd : RegexCrate.isDecimalDigit d.1 = false := h hbackslash d rfl
              simp [chars, hd]
            · simp [hbackslash]
      rw [setOffMatches_keep h, put_inl]
      show c.1 :: chars (put [] (setOffMatches text)) = removePlaceholders false (c.1 :: chars text)
      rw [removePlaceholders, hnone, ih]
      rfl
  | found c digits after h ih =>
      have hsome : (decide (c.1 = '\\') &&
          (chars (digits ++ after)).head?.any RegexCrate.isDecimalDigit) = true := by
        obtain ⟨d, rest, rfl⟩ := List.exists_cons_of_ne_nil h.ne_nil
        have hd := h.digits d List.mem_cons_self
        simp [chars, h.backslash, hd]
      rw [setOffMatches_match h, put_inr, List.nil_append, ih]
      show _ = removePlaceholders false (c.1 :: chars (digits ++ after))
      rw [removePlaceholders, hsome, removePlaceholders_digits h.digits h.ends]
      rfl

/-- Where no digit comes next, none does when the matches are gone. -/
theorem noDigit_put (text : Marked κ) (h : NoDigit text) :
    NoDigit (put [] (setOffMatches text)) := by
  induction text using matches_induction with
  | nil => exact h
  | keep c text hkeep ih =>
      rw [setOffMatches_keep hkeep, put_inl]
      exact h
  | found c digits after hmatch ih =>
      rw [setOffMatches_match hmatch, put_inr, List.nil_append]
      exact ih hmatch.ends

/-- Without its matches a text has no matches. -/
theorem setOffMatches_put (text : Marked κ) :
    setOffMatches (put [] (setOffMatches text)) = (put [] (setOffMatches text)).map .inl := by
  induction text using matches_induction with
  | nil => rfl
  | keep c text h ih =>
      have hkeep : c.1 = '\\' → NoDigit (put [] (setOffMatches text)) :=
        fun hbackslash => noDigit_put text (h hbackslash)
      rw [setOffMatches_keep h, put_inl, setOffMatches_keep hkeep, ih, List.map_cons]
  | found c digits after h ih =>
      rw [setOffMatches_match h, put_inr, List.nil_append, ih]

/-- What is set off is a match in the text. -/
theorem exists_match_of_mem_reads {found : Marked κ} (h : found ∈ reads (setOffMatches text)) :
    ∃ before c digits after, text = before ++ c :: (digits ++ after) ∧ IsMatch c digits after ∧
      found = c :: digits := by
  induction text using matches_induction with
  | nil => cases h
  | keep c text hkeep ih =>
      rw [setOffMatches_keep hkeep, reads_inl] at h
      obtain ⟨before, d, digits, after, htext, hmatch, hfound⟩ := ih h
      exact ⟨c :: before, d, digits, after, by rw [htext]; rfl, hmatch, hfound⟩
  | found c digits after hmatch ih =>
      rw [setOffMatches_match hmatch, reads_inr] at h
      rcases List.mem_cons.mp h with rfl | hlater
      · exact ⟨[], c, digits, after, rfl, hmatch, rfl⟩
      · obtain ⟨before, d, others, rest, htext, hother, hfound⟩ := ih hlater
        exact ⟨c :: (digits ++ before), d, others, rest, by rw [htext]; simp, hother, hfound⟩

theorem isDecimalDigit_backslash : RegexCrate.isDecimalDigit '\\' = false := by decide

/-- A backslash is no digit. -/
theorem NoDigit.append {before : Marked κ} (h : NoDigit before) (hc : c.1 = '\\')
    (text : Marked κ) : NoDigit (before ++ c :: text) := by
  cases before with
  | nil =>
      intro d hd
      cases hd
      rw [hc]
      exact isDecimalDigit_backslash
  | cons d rest => exact h

/-- Every match in the text is set off. -/
theorem mem_reads_of_match (h : IsMatch c digits after) (before : Marked κ) :
    c :: digits ∈ reads (setOffMatches (before ++ c :: (digits ++ after))) := by
  induction before using matches_induction with
  | nil =>
      rw [List.nil_append, setOffMatches_match h]
      exact List.mem_cons_self
  | keep d before hkeep ih =>
      have hother : d.1 = '\\' → NoDigit (before ++ c :: (digits ++ after)) :=
        fun hd => (hkeep hd).append h.backslash _
      rw [List.cons_append, setOffMatches_keep hother, reads_inl]
      exact ih
  | found d others before hmatch ih =>
      have hother : IsMatch d others (before ++ c :: (digits ++ after)) :=
        { hmatch with ends := hmatch.ends.append h.backslash _ }
      rw [List.cons_append, List.append_assoc, setOffMatches_match hother, reads_inr]
      exact List.mem_cons_of_mem _ ih

end Matches

/-! ## Filling in the groups -/

section Filling

variable {versionExpr : List Char} {captures : Captures} {text : Marked Placeholder}
  {template : Template Placeholder}

/-- A digit of ASCII is a decimal digit. -/
theorem isDecimalDigit_of_isDigit {c : Char} (h : c.isDigit = true) :
    RegexCrate.isDecimalDigit c = true := by
  obtain ⟨hlow, hhigh⟩ := Text.toNat_of_isDigit h
  unfold RegexCrate.isDecimalDigit RegexCrate.digitZeros
  rw [List.any_cons, Bool.or_eq_true]
  refine .inl ?_
  simp only [Bool.and_eq_true, decide_eq_true_eq]
  omega

/-- What is set off are placeholders exactly if no other match starts. -/
theorem matches_reads_iff :
    (∀ found ∈ reads (setOffMatches text),
        ∃ placeholder, found = name Placeholder.spell placeholder) ↔ OnlyPlaceholders text := by
  constructor
  · intro hreads before c digits after htext hmatch
    exact hreads _ (htext ▸ mem_reads_of_match hmatch before)
  · intro honly found hfound
    obtain ⟨before, c, digits, after, htext, hmatch, rfl⟩ := exists_match_of_mem_reads hfound
    exact honly before c digits after htext hmatch

/-- What holds of a text holds of its end. -/
theorem OnlyPlaceholders.of_append {front : Marked Placeholder}
    (h : OnlyPlaceholders (front ++ text)) : OnlyPlaceholders text := by
  intro before c digits after htext hmatch
  exact h (front ++ before) c digits after (by rw [htext]; simp) hmatch

/-- The digits of a placeholder are a digit at least. -/
theorem not_noDigit_digits (placeholder : Placeholder) (text : Marked Placeholder) :
    ¬ NoDigit
      ((Nat.repr placeholder.number).toList.map (fun c => (c, some placeholder)) ++ text) := by
  intro h
  obtain ⟨first, others, hrepr⟩ := List.exists_cons_of_ne_nil (Text.repr_ne_nil placeholder.number)
  rw [hrepr] at h
  have hfirst : RegexCrate.isDecimalDigit first = false := h (first, some placeholder) rfl
  rw [isDecimalDigit_of_isDigit (Text.isDigit_of_mem_repr (hrepr ▸ List.mem_cons_self))] at hfirst
  cases hfirst

/-- When nothing else looks like a placeholder, the placeholders that are left are removed. -/
theorem put_setOffMatches (h : OnlyPlaceholders (marked Placeholder.spell template)) :
    chars (put [] (setOffMatches (marked Placeholder.spell template))) =
      template.flatMap (Sum.elim (fun c => [c]) fun _ => []) := by
  induction template with
  | nil => rfl
  | cons piece rest ih =>
      cases piece with
      | inl c =>
          rw [marked_inl] at h ⊢
          have hkeep : c = '\\' → NoDigit (marked Placeholder.spell rest) := by
            intro hc
            by_contra hdigit
            obtain ⟨digits, after, hrest, hmatch⟩ :=
              exists_isMatch (c := ((c, none) : Char × Option Placeholder)) hc hdigit
            obtain ⟨placeholder, hname⟩ := h [] (c, none) digits after (by rw [hrest]; rfl) hmatch
            cases mem_name (hname ▸ List.mem_cons_self)
          rw [List.singleton_append, setOffMatches_keep hkeep, put_inl]
          exact congrArg (c :: ·) (ih h.of_append)
      | inr placeholder =>
          rw [marked_inr] at h ⊢
          -- Behind its last backslash a placeholder has digits, and they are the match.
          obtain ⟨digits, after, hdigits, hmatch⟩ := exists_isMatch
            (c := ('\\', some placeholder)) rfl
            (not_noDigit_digits placeholder (marked Placeholder.spell rest))
          have hplaceholder : ∀ front : Marked Placeholder, name Placeholder.spell placeholder =
              front ++ ('\\', some placeholder) ::
                (Nat.repr placeholder.number).toList.map (fun c => (c, some placeholder)) →
              ('\\', some placeholder) :: digits = name Placeholder.spell placeholder := by
            intro front hfront
            obtain ⟨other, hother⟩ := h front _ digits after
              (by rw [hfront, List.append_assoc, List.cons_append, hdigits]) hmatch
            have hsame : some placeholder = some other := mem_name (hother ▸ List.mem_cons_self)
            rw [hother, Option.some.inj hsame]
          obtain ⟨double, number⟩ := placeholder
          cases double with
          | false =>
              have hname := hplaceholder [] rfl
              have hsame : digits = (Nat.repr number).toList.map fun c =>
                  (c, some ⟨false, number⟩) := (List.cons.inj hname).2
              rw [← hsame] at hdigits
              rw [← List.append_cancel_left hdigits] at hmatch
              rw [← hname, List.cons_append, setOffMatches_match hmatch, put_inr]
              exact ih h.of_append
          | true =>
              have hname := hplaceholder [('\\', some ⟨true, number⟩)] rfl
              have hmem : ('\\', some ⟨true, number⟩) ∈ digits := by
                rw [(List.cons.inj hname).2]
                exact List.mem_cons_self
              exact absurd (hmatch.digits _ hmem) (by simp [isDecimalDigit_backslash])

/-- The groups whose placeholders are replaced. -/
theorem mem_filledGroups {number : ℕ} :
    number ∈ (groupsDescending captures).filter (fun i =>
        (placeholdersInTemplate versionExpr).contains i) ↔
      (1 ≤ number ∧ number < captures.length) ∧ number ∈ placeholdersInTemplate versionExpr := by
  simp only [List.mem_filter, groupsDescending, List.mem_reverse, List.mem_range'_1,
    List.contains_iff_mem]
  constructor
  · intro h
    exact ⟨by omega, h.2⟩
  · intro h
    exact ⟨by omega, h.2⟩

/-- A placeholder of the template, up to number 99, is found in it. -/
theorem mem_placeholdersInTemplate {placeholder : Placeholder}
    (h : .inr placeholder ∈ readTemplate versionExpr) (hnumber : placeholder.number ≤ 99) :
    placeholder.number ∈ placeholdersInTemplate versionExpr := by
  obtain ⟨hchars, hpositive⟩ := readTemplate_spec versionExpr
  have hfound : Text.contains versionExpr placeholder.spell = true := by
    obtain ⟨front, back, hsplit⟩ := List.append_of_mem h
    have hname : chars (name Placeholder.spell placeholder) = placeholder.spell := chars_name
    have htext : versionExpr = chars (marked Placeholder.spell front) ++
        (placeholder.spell ++ chars (marked Placeholder.spell back)) := by
      rw [← hchars, hsplit, ← hname]
      simp [chars, marked]
    rw [Text.contains, List.any_eq_true]
    refine ⟨placeholder.spell ++ chars (marked Placeholder.spell back), ?_, by simp⟩
    rw [List.mem_tails, htext]
    exact List.suffix_append _ _
  have hrange := hpositive placeholder h
  rw [placeholdersInTemplate, List.mem_filter, List.mem_range'_1, Bool.or_eq_true]
  refine ⟨by omega, ?_⟩
  unfold Placeholder.spell at hfound
  split at hfound
  · exact .inl hfound
  · exact .inr hfound

/-- The text that a placeholder is filled with. -/
theorem lookup_fillings (placeholder : Placeholder) :
    (fillings versionExpr captures).lookup placeholder =
      if placeholder.number ∈ (groupsDescending captures).filter (fun i =>
          (placeholdersInTemplate versionExpr).contains i) then
        captures[placeholder.number]?.join.map String.toList
      else none := by
  unfold fillings
  generalize (groupsDescending captures).filter (fun i =>
    (placeholdersInTemplate versionExpr).contains i) = groups
  induction groups with
  | nil => rfl
  | cons i rest ih =>
      rw [List.flatMap_cons]
      rw [List.lookup_append, ih, groupFillings]
      by_cases hi : placeholder.number = i
      · subst hi
        obtain ⟨double, number⟩ := placeholder
        have hsingle : (({ double := false, number := number } : Placeholder) ==
            { double := true, number := number }) = false := beq_false_of_ne (by simp)
        cases captures[number]?.join with
        | none => simp
        | some value => cases double <;> simp [List.lookup_cons, hsingle]
      · have hne : ∀ double, (placeholder == { double := double, number := i }) = false :=
          fun double => beq_false_of_ne fun heq => hi (congrArg Placeholder.number heq)
        cases captures[i]?.join with
        | none => simp [hi]
        | some value => simp [List.lookup_cons, hne, hi]

/-- With all groups filled in and the placeholders that are left removed, the placeholders up to
number 99 have become the texts of their groups. -/
theorem fillAll_flatMap (versionExpr : List Char) (captures : Captures) :
    (fillAll (fillings versionExpr captures) (readTemplate versionExpr)).flatMap
        (Sum.elim (fun c => [c]) fun _ => []) =
      (readTemplate versionExpr).flatMap (Sum.elim (fun c => [c]) fun placeholder =>
        if placeholder.number ≤ 99 then groupText captures placeholder.number else []) := by
  rw [fillAll_eq, List.flatMap_assoc]
  refine List.flatMap_congr fun piece hpiece => ?_
  cases piece with
  | inl c => rfl
  | inr placeholder =>
      have hfilled : ∀ found : Option (List Char),
          (found.elim [Sum.inr placeholder] fun value => value.map Sum.inl).flatMap
            (Sum.elim (fun c => [c]) fun _ => []) = found.getD [] := by
        intro found
        cases found with
        | none => rfl
        | some value =>
            rw [Option.elim_some, List.flatMap_map]
            exact List.flatMap_singleton' value
      simp only [Sum.elim_inr]
      rw [hfilled, lookup_fillings]
      by_cases hnumber : placeholder.number ≤ 99
      · have hmem := mem_placeholdersInTemplate hpiece hnumber
        have hpositive := (readTemplate_spec versionExpr).2 placeholder hpiece
        rw [if_pos hnumber, groupText]
        by_cases hlength : placeholder.number < captures.length
        · rw [if_pos (mem_filledGroups.mpr ⟨⟨hpositive, hlength⟩, hmem⟩)]
        · rw [List.getElem?_eq_none (by omega), if_neg fun h => hlength (mem_filledGroups.mp h).1.2]
          rfl
      · have hmem : placeholder.number ∉ placeholdersInTemplate versionExpr := by
          intro h
          rw [placeholdersInTemplate, List.mem_filter, List.mem_range'_1] at h
          omega
        rw [if_neg hnumber, if_neg fun h => hmem (mem_filledGroups.mp h).2]
        rfl

/-- The version is what the run leaves, without the matches in it. -/
theorem builtVersion_eq (hquestion : '?' ∉ versionExpr) (captures : Captures) :
    builtVersion versionExpr captures =
      chars (put [] (setOffMatches (run Placeholder.spell (fillings versionExpr captures)
        (marked Placeholder.spell (readTemplate versionExpr))).2)) := by
  have hgroup : replaceGroup captures = fun text i =>
      (groupFillings captures i).foldl (fun text (placeholder, value) =>
        Text.replace text placeholder.spell value) text := by
    funext text i
    unfold replaceGroup groupFillings
    cases captures[i]?.join <;> rfl
  have hsubstitute : substituteVersion versionExpr captures =
      removePlaceholders false (chars (run Placeholder.spell (fillings versionExpr captures)
        (marked Placeholder.spell (readTemplate versionExpr))).2) := by
    rw [substituteVersion, if_neg (by simpa using hquestion), hgroup, ← List.foldl_flatMap,
      chars_run, (readTemplate_spec versionExpr).1]
    rfl
  have hnone : ∀ text : Marked Placeholder, put [] (text.map Sum.inl) = text := by
    intro text
    have hput := put_map_inl [] text []
    have hnil : put [] ([] : List (Char × Option Placeholder ⊕ Marked Placeholder)) = [] := rfl
    rwa [List.append_nil, hnil, List.append_nil] at hput
  rw [builtVersion, hsubstitute, ← chars_put_setOffMatches, ← chars_put_setOffMatches,
    setOffMatches_put, hnone]

/-- Leaving out parts changes a text unless they are empty. -/
theorem eq_of_flatMap_eq {α β : Type} {some all : α → List β}
    (hsome : ∀ x, some x = all x ∨ some x = []) {parts : List α}
    (h : parts.flatMap some = parts.flatMap all) : ∀ x ∈ parts, some x = all x := by
  have hone : ∀ x, (some x).length ≤ (all x).length := by
    intro x
    rcases hsome x with heq | heq <;> simp [heq]
  have hle : ∀ parts : List α, (parts.flatMap some).length ≤ (parts.flatMap all).length := by
    intro parts
    induction parts with
    | nil => simp
    | cons x rest ih =>
        have hx := hone x
        simp only [List.flatMap_cons, List.length_append]
        omega
  induction parts with
  | nil => simp
  | cons x rest ih =>
      have hlength := congrArg List.length h
      simp only [List.flatMap_cons, List.length_append] at h hlength
      have hx : some x = all x := by
        rcases hsome x with heq | heq
        · exact heq
        · have hrest := hle rest
          rw [heq, List.length_nil] at hlength
          have hnil : (all x).length = 0 := by omega
          rw [heq, List.length_eq_zero_iff.mp hnil]
      rw [hx, List.append_cancel_left_eq] at h
      intro y hy
      rcases List.mem_cons.mp hy with rfl | hy
      · exact hx
      · exact ih h y hy

/-- What a template reads are placeholders exactly if its fillings have no match of their own. -/
theorem templateReads_iff (versionExpr : List Char) (captures : Captures) :
    (∀ found ∈ templateReads versionExpr captures,
        ∃ placeholder, found = name Placeholder.spell placeholder) ↔
      (∀ found ∈ (run Placeholder.spell (fillings versionExpr captures)
          (marked Placeholder.spell (readTemplate versionExpr))).1,
        ∃ placeholder, found = name Placeholder.spell placeholder) ∧
      OnlyPlaceholders (run Placeholder.spell (fillings versionExpr captures)
        (marked Placeholder.spell (readTemplate versionExpr))).2 := by
  have hnone : ∀ text : Marked Placeholder, reads (text.map Sum.inl) = [] := by
    intro text
    induction text with
    | nil => rfl
    | cons c rest ih => exact ih
  rw [← matches_reads_iff]
  simp only [templateReads, setOffMatches_put, hnone, List.append_nil, List.mem_append, or_imp,
    forall_and]

/-- For a template without `?`: the version is the template with all placeholders replaced at once,
and nothing but placeholders of the template was read as one, exactly when the texts of the groups
and the template go together. -/
theorem version_template_iff (versionExpr : List Char) (captures : Captures)
    (hquestion : '?' ∉ versionExpr) :
    (builtVersion versionExpr captures = substituteAtOnce versionExpr captures ∧
      ∀ found ∈ templateReads versionExpr captures,
        ∃ placeholder, found = name Placeholder.spell placeholder) ↔
      Unambiguous versionExpr captures := by
  have hrun := run_reads_iff Placeholder.spell_ne_nil Placeholder.spell_unbordered
    Placeholder.spell_injective (fillings versionExpr captures) (readTemplate versionExpr)
  rw [templateReads_iff, builtVersion_eq hquestion, hrun]
  -- Once nothing else is read, the version is what the holes make of it.
  have hbuilt : ∀ hclean : CleanAlong Placeholder.spell (fillings versionExpr captures)
      (readTemplate versionExpr), OnlyPlaceholders (run Placeholder.spell
        (fillings versionExpr captures) (marked Placeholder.spell (readTemplate versionExpr))).2 →
      chars (put [] (setOffMatches (run Placeholder.spell (fillings versionExpr captures)
        (marked Placeholder.spell (readTemplate versionExpr))).2)) =
      (readTemplate versionExpr).flatMap (Sum.elim (fun c => [c]) fun placeholder =>
        if placeholder.number ≤ 99 then groupText captures placeholder.number else []) := by
    intro hclean honly
    rw [run_of_cleanAlong Placeholder.spell_ne_nil hclean] at honly ⊢
    rw [put_setOffMatches honly, fillAll_flatMap]
  constructor
  · intro h
    obtain ⟨heq, hclean, honly⟩ := h
    rw [hbuilt hclean honly] at heq
    rw [run_of_cleanAlong Placeholder.spell_ne_nil hclean] at honly
    refine ⟨hclean, honly, fun placeholder hplaceholder hnumber => ?_⟩
    have hparts := eq_of_flatMap_eq (fun piece => ?_) heq (.inr placeholder) hplaceholder
    · rw [Sum.elim_inr, if_neg (by omega)] at hparts
      exact hparts.symm
    · cases piece with
      | inl c => exact .inl rfl
      | inr other =>
          rw [Sum.elim_inr]
          split
          · exact .inl rfl
          · exact .inr rfl
  · intro h
    have honly := h.left
    rw [← run_of_cleanAlong Placeholder.spell_ne_nil h.groups] at honly
    refine ⟨?_, h.groups, honly⟩
    rw [hbuilt h.groups honly]
    refine List.flatMap_congr fun piece hpiece => ?_
    cases piece with
    | inl c => rfl
    | inr placeholder =>
        simp only [Sum.elim_inr]
        split
        case isTrue => rfl
        case isFalse hnumber => exact (h.beyond placeholder hpiece (by omega)).symm

/-- A text without backslashes goes together with the template of its group. -/
theorem version_template_plain :
    Unambiguous "\\1".toList [some "jquery-3.7", some "3.7"] := by
  have hreads : templateReads "\\1".toList [some "jquery-3.7", some "3.7"] =
      [name Placeholder.spell { double := false, number := 1 }] := by decide +kernel
  refine (version_template_iff _ _ (by decide)).mp ⟨by decide +kernel, fun found hfound => ?_⟩
  rw [hreads, List.mem_singleton] at hfound
  exact ⟨_, hfound⟩

/-- A backslash and a digit in the text of a group are removed from the version. -/
theorem version_template_deletes_text :
    ¬ ∀ (versionExpr : List Char) (captures : Captures), '?' ∉ versionExpr →
      builtVersion versionExpr captures = substituteAtOnce versionExpr captures ∧
        ∀ found ∈ templateReads versionExpr captures,
          ∃ placeholder, found = name Placeholder.spell placeholder := by
  intro h
  have hbuilt := (h "\\1".toList [some "a\\5b", some "a\\5b"] (by decide)).1
  have hleft : builtVersion "\\1".toList [some "a\\5b", some "a\\5b"] = "ab".toList := by
    decide +kernel
  have hright : substituteAtOnce "\\1".toList [some "a\\5b", some "a\\5b"] =
      "a\\5b".toList := by decide +kernel
  rw [hleft, hright] at hbuilt
  exact absurd hbuilt (by decide)

end Filling

end DomainStatus.Fingerprint
