import Mathlib.Algebra.Group.Nat.Defs
import Mathlib.Data.List.AList
import Mathlib.Data.Nat.Notation

/-!
# Numbered texts

Texts that are numbered in the order in which they come, each once. The numbers have 32 bits and may
run out. Read `intern_cases` first: what adding a text can do. By `intern_stable` a text keeps its
number.
-/

/-- The number of needles that ids of 32 bits can tell apart. -/
def maxNeedles : ℕ := 2 ^ 32

/-- The texts with their numbers. -/
structure Interner where
  toId : AList fun _ : String => ℕ
  needles : List String
  lookup_iff : ∀ needle id, toId.lookup needle = some id ↔ needles[id]? = some needle
  length_le : needles.length ≤ maxNeedles

namespace Interner

instance : Inhabited Interner where
  default := { toId := ∅, needles := [], lookup_iff := by simp, length_le := by simp }

/-- Adds a needle that is not there yet. -/
def push (interner : Interner) (needle : String) (hnew : interner.toId.lookup needle = none)
    (hroom : interner.needles.length < maxNeedles) : Interner where
  toId := interner.toId.insert needle interner.needles.length
  needles := interner.needles ++ [needle]
  lookup_iff other id := by
    have hlookup := interner.lookup_iff other id
    by_cases hother : other = needle
    · subst hother
      rw [AList.lookup_insert, Option.some.injEq, List.getElem?_append]
      rw [hnew] at hlookup
      split <;> grind
    · rw [AList.lookup_insert_ne hother, hlookup, List.getElem?_append]
      split <;> grind
  length_le := by simpa using Nat.succ_le_of_lt hroom

/-- The number of a needle. There is none when the needle is new and the numbers are used up. -/
def intern (interner : Interner) (needle : String) : Option ℕ × Interner :=
  match hnew : interner.toId.lookup needle with
  | some id => (some id, interner)
  | none =>
      if hroom : interner.needles.length < maxNeedles then
        (some interner.needles.length, interner.push needle hnew hroom)
      else (none, interner)

/-- The interner holds the needles of the other one, with the same numbers. -/
def Extends (later needles : Interner) : Prop :=
  needles.needles <+: later.needles

variable {needles later : Interner} {needle : String}

/-- A list extends itself. -/
theorem Extends.refl (needles : Interner) : needles.Extends needles :=
  List.prefix_refl _

/-- What extends an extension extends the first list. -/
theorem Extends.trans {first : Interner} (hlater : later.Extends needles)
    (hneedles : needles.Extends first) : later.Extends first :=
  List.IsPrefix.trans hneedles hlater

/-- A needle keeps its number. -/
theorem Extends.getElem? {id : ℕ} (hlater : later.Extends needles)
    (h : needles.needles[id]? = some needle) : later.needles[id]? = some needle := by
  obtain ⟨rest, hrest⟩ := hlater
  obtain ⟨hid, -⟩ := List.getElem?_eq_some_iff.mp h
  rw [← hrest, List.getElem?_append_left hid, h]

/-- A needle that is there has its number, and nothing is added. -/
theorem intern_of_mem {id : ℕ} (h : needles.needles[id]? = some needle) :
    needles.intern needle = (some id, needles) := by
  have hlookup := (needles.lookup_iff needle id).mpr h
  unfold intern
  split
  next found hfound =>
    rw [hlookup, Option.some.injEq] at hfound
    rw [hfound]
  next hnone =>
    rw [hlookup] at hnone
    cases hnone

/-- When the list is full, a new needle has no number. -/
theorem intern_of_full (hnew : needle ∉ needles.needles)
    (hfull : maxNeedles ≤ needles.needles.length) : needles.intern needle = (none, needles) := by
  unfold intern
  split
  next id hid => exact absurd (List.mem_of_getElem? ((needles.lookup_iff needle id).mp hid)) hnew
  · rw [dif_neg (not_lt.mpr hfull)]

/-- What `intern` does: it finds the needle, adds it, or has no number left for it. -/
theorem intern_cases (needles : Interner) (needle : String) :
    (∃ id, needles.needles[id]? = some needle ∧ needles.intern needle = (some id, needles)) ∨
      (∃ after, needles.intern needle = (some needles.needles.length, after) ∧
        after.needles = needles.needles ++ [needle]) ∨
      (needle ∉ needles.needles ∧ maxNeedles ≤ needles.needles.length ∧
        needles.intern needle = (none, needles)) := by
  by_cases hmem : needle ∈ needles.needles
  · obtain ⟨id, hid⟩ := List.mem_iff_getElem?.mp hmem
    exact Or.inl ⟨id, hid, intern_of_mem hid⟩
  · right
    by_cases hroom : needles.needles.length < maxNeedles
    · left
      unfold intern
      split
      next id hid =>
        exact absurd (List.mem_of_getElem? ((needles.lookup_iff needle id).mp hid)) hmem
      next hnew =>
        rw [dif_pos hroom]
        exact ⟨needles.push needle hnew hroom, rfl, rfl⟩
    · exact Or.inr ⟨hmem, not_lt.mp hroom, intern_of_full hmem (not_lt.mp hroom)⟩

/-- When `intern` adds nothing, the needle is known or there was no number left for it. -/
theorem intern_known {interner : Interner} (hsame : (interner.intern needle).2 = interner) :
    (∃ id, interner.needles[id]? = some needle ∧
        interner.intern needle = (some id, interner)) ∨
      (needle ∉ interner.needles ∧ interner.intern needle = (none, interner)) := by
  obtain hknown | ⟨after, h, hafter⟩ | ⟨hnew, -, h⟩ := intern_cases interner needle
  · exact Or.inl hknown
  · have hlength := congrArg (fun found => found.needles.length) hsame
    simp [h, hafter] at hlength
  · exact Or.inr ⟨hnew, h⟩

/-- Needles are only added. -/
theorem intern_extends (needles : Interner) (needle : String) :
    (needles.intern needle).2.Extends needles := by
  obtain ⟨id, -, h⟩ | ⟨after, h, hafter⟩ | ⟨-, -, h⟩ := intern_cases needles needle
  · rw [h]
    exact Extends.refl _
  · rw [h, Extends, hafter]
    exact List.prefix_append _ _
  · rw [h]
    exact Extends.refl _

/-- What a number stands for, and what was added. -/
theorem intern_eq_some {id : ℕ} (h : needles.intern needle = (some id, later)) :
    later.needles[id]? = some needle ∧ later.Extends needles ∧
      ∀ other ∈ later.needles, other ∈ needles.needles ∨ other = needle := by
  have hextends := intern_extends needles needle
  rw [h] at hextends
  obtain ⟨found, hfound, heq⟩ | ⟨after, heq, hafter⟩ | ⟨-, -, heq⟩ := intern_cases needles needle
  · rw [heq] at h
    cases h
    exact ⟨hfound, hextends, fun _ => .inl⟩
  · rw [heq] at h
    cases h
    refine ⟨by rw [hafter, List.getElem?_concat_length], hextends, fun other hother => ?_⟩
    rw [hafter, List.mem_append, List.mem_singleton] at hother
    exact hother
  · rw [heq] at h
    cases h

/-- The needles are the texts that came, each once. When the numbers are used up there are too
many of them. -/
theorem intern_eraseDups {seen : List String} (hseen : needles.needles = seen.eraseDups)
    (needle : String) :
    (∃ id after, needles.intern needle = (some id, after) ∧
        after.needles = (seen ++ [needle]).eraseDups) ∨
      ((needles.intern needle).1 = none ∧
        maxNeedles < (seen ++ [needle]).eraseDups.length) := by
  have hmem : needle ∈ needles.needles ↔ needle ∈ seen := by rw [hseen, List.mem_eraseDups]
  have hadd : (seen ++ [needle]).eraseDups =
      if needle ∈ seen then needles.needles else needles.needles ++ [needle] := by
    rw [List.eraseDups_append, ← hseen]
    by_cases h : needle ∈ seen <;> simp [List.removeAll, h, List.eraseDups_cons]
  obtain ⟨id, hid, h⟩ | ⟨after, h, hafter⟩ | ⟨hnew, hfull, h⟩ := intern_cases needles needle
  · left
    refine ⟨id, needles, h, ?_⟩
    rw [hadd, if_pos (hmem.mp (List.mem_of_getElem? hid))]
  · by_cases hknown : needle ∈ seen
    · obtain ⟨id, hid⟩ := List.mem_iff_getElem?.mp (hmem.mpr hknown)
      exact .inl ⟨id, needles, intern_of_mem hid, by rw [hadd, if_pos hknown]⟩
    · exact .inl ⟨_, after, h, by rw [hadd, if_neg hknown, hafter]⟩
  · right
    rw [hadd, if_neg (fun hknown => hnew (hmem.mpr hknown)), List.length_append]
    exact ⟨by rw [h], Nat.lt_of_le_of_lt hfull (Nat.lt_succ_self _)⟩

/-- No two numbers stand for one needle. -/
theorem getElem?_inj {id other : ℕ} (h : needles.needles[id]? = some needle)
    (hother : needles.needles[other]? = some needle) : id = other := by
  rw [← needles.lookup_iff] at h hother
  rw [h, Option.some.injEq] at hother
  exact hother

/-- A needle that was interned once keeps its number, and one that found no room finds none
later. -/
theorem intern_stable (hlater : later.Extends (needles.intern needle).2) :
    later.intern needle = ((needles.intern needle).1, later) := by
  obtain ⟨id, hid, h⟩ | ⟨after, h, hafter⟩ | ⟨hnew, hfull, h⟩ := intern_cases needles needle
  · rw [h] at hlater ⊢
    exact intern_of_mem (Extends.getElem? hlater hid)
  · rw [h] at hlater ⊢
    refine intern_of_mem (Extends.getElem? hlater ?_)
    rw [hafter, List.getElem?_concat_length]
  · rw [h] at hlater ⊢
    have hlength : later.needles.length ≤ needles.needles.length :=
      Nat.le_trans later.length_le hfull
    -- No number was left, so nothing was added since.
    have hsame : needles.needles = later.needles :=
      List.IsPrefix.eq_of_length_le hlater hlength
    exact intern_of_full (hsame ▸ hnew) (hsame ▸ hfull)

/-- No needle is there twice. -/
theorem nodup_needles (needles : Interner) : needles.needles.Nodup := by
  rw [List.nodup_iff_getElem?_ne_getElem?]
  intro id other hlt hother hsame
  have hid := List.getElem?_eq_getElem (Nat.lt_trans hlt hother)
  exact Nat.ne_of_lt hlt (getElem?_inj hid (hsame ▸ hid))

/-- The later interner has the needles of the first one and wanted ones, and all that are wanted
unless the numbers are used up. -/
structure Collects (needles later : Interner) (wanted : String → Prop) : Prop where
  grows : later.Extends needles
  mem : ∀ needle ∈ later.needles, needle ∈ needles.needles ∨ wanted needle
  mem_of_room : later.needles.length < maxNeedles → ∀ needle, wanted needle →
    needle ∈ later.needles

/-- Without anything wanted nothing is collected. -/
theorem Collects.refl (needles : Interner) : Collects needles needles fun _ => False :=
  ⟨Extends.refl needles, fun _ => .inl, fun _ _ h => h.elim⟩

/-- What is wanted first and what is wanted later are both collected. -/
theorem Collects.trans {first : Interner} {wanted others : String → Prop}
    (hfirst : Collects first needles wanted) (hlater : Collects needles later others) :
    Collects first later fun needle => wanted needle ∨ others needle where
  grows := Extends.trans hlater.grows hfirst.grows
  mem needle hneedle := by
    rcases hlater.mem needle hneedle with hmem | hothers
    · rcases hfirst.mem needle hmem with hmem | hwanted
      · exact .inl hmem
      · exact .inr (.inl hwanted)
    · exact .inr (.inr hothers)
  mem_of_room hroom needle hneedle := by
    rcases hneedle with hwanted | hothers
    · have hearlier : needles.needles.length < maxNeedles :=
        Nat.lt_of_le_of_lt (List.IsPrefix.length_le hlater.grows) hroom
      exact List.IsPrefix.subset hlater.grows (hfirst.mem_of_room hearlier needle hwanted)
    · exact hlater.mem_of_room hroom needle hothers

/-- What is collected depends on what is wanted only. -/
theorem Collects.congr {wanted others : String → Prop} (h : Collects needles later wanted)
    (hiff : ∀ needle, wanted needle ↔ others needle) : Collects needles later others where
  grows := h.grows
  mem needle hneedle := (h.mem needle hneedle).imp_right (hiff needle).mp
  mem_of_room hroom needle hneedle := h.mem_of_room hroom needle ((hiff needle).mpr hneedle)

/-- One needle is wanted and collected. -/
theorem intern_collects (needles : Interner) (needle : String) :
    Collects needles (needles.intern needle).2 (· = needle) := by
  refine ⟨intern_extends needles needle, ?_, ?_⟩
  · intro other hother
    obtain ⟨id, -, h⟩ | ⟨after, h, hafter⟩ | ⟨-, -, h⟩ := intern_cases needles needle
    · rw [h] at hother
      exact .inl hother
    · rw [h, hafter, List.mem_append, List.mem_singleton] at hother
      exact hother
    · rw [h] at hother
      exact .inl hother
  · rintro hroom other rfl
    obtain ⟨id, hid, h⟩ | ⟨after, h, hafter⟩ | ⟨-, hfull, h⟩ := intern_cases needles other
    · rw [h]
      exact List.mem_of_getElem? hid
    · rw [h, hafter]
      exact List.mem_append_right _ (List.mem_singleton_self _)
    · rw [h] at hroom
      exact absurd hroom (not_lt.mpr hfull)

end Interner
