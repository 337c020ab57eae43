import DomainStatus.Fingerprint.Orders

/-!
# What a scan of a channel finds

Whether the hits of `scan_channel` of `src/fingerprint/patterns/literals.rs` are the needles that
occur in the text. Read `scan_channel_exact_iff` first. The search goes on behind each match, so
that a needle is missed when every place where it occurs overlaps an earlier match, or ends together
with a needle that is reported instead.
-/

namespace DomainStatus.Fingerprint

section Scan

variable (aho : AhoCorasick)

/-- The needle occurs in the text, up to ASCII case. -/
def NeedleOccurs (text needle : String) : Prop :=
  AhoCorasick.Occurs text.toList needle.toList

/-- The hits of a channel are exactly the needles that occur in the text, if and only if each of
these is the one that the search reports at a place from which it starts anew. -/
theorem scan_channel_exact_iff (interner : Interner) (text : String) :
    (∀ id, (scanChannel (Interner.finish aho interner) text).contains id = true ↔
        ∃ needle, interner.needles[id]? = some needle ∧ NeedleOccurs text needle) ↔
      ∀ id needle, interner.needles[id]? = some needle → NeedleOccurs text needle →
        AhoCorasick.Reports aho (interner.needles.map String.toList) text.toList id := by
  have hcontains : ∀ id, (scanChannel (Interner.finish aho interner) text).contains id = true ↔
      AhoCorasick.Reports aho (interner.needles.map String.toList) text.toList id := by
    intro id
    rw [contains_scanChannel, decide_eq_true_eq, findNeedles, AhoCorasick.mem_findIter_iff]
  simp only [hcontains]
  constructor
  · intro hexact id needle hneedle hoccurs
    exact (hexact id).mpr ⟨needle, hneedle, hoccurs⟩
  · intro hall id
    constructor
    · intro hreports
      obtain ⟨needle, hneedle, hoccurs⟩ := hreports.occurs
      rw [List.getElem?_map] at hneedle
      obtain ⟨found, hfound, rfl⟩ := Option.map_eq_some_iff.mp hneedle
      exact ⟨found, hfound, hoccurs⟩
    · intro h
      obtain ⟨needle, hneedle, hoccurs⟩ := h
      exact hall id needle hneedle hoccurs

/-- The needles `abcd` and `bc`. -/
def nestedNeedles : Interner :=
  ((default : Interner).intern "abcd").2 |>.intern "bc" |>.2

/-- The search finds `bc` in the text `abcd`, goes on behind it, and misses `abcd`. -/
theorem scan_channel_misses_overlap :
    ¬ ∀ (aho : AhoCorasick) (interner : Interner) (text : String) (id : ℕ),
      (scanChannel (Interner.finish aho interner) text).contains id = true ↔
        ∃ needle, interner.needles[id]? = some needle ∧ NeedleOccurs text needle := by
  intro h
  have hmissed : (scanChannel (Interner.finish AhoCorasick.longestNeedle nestedNeedles)
      "abcd").contains 0 = false := by
    decide +kernel
  have hfound := (h AhoCorasick.longestNeedle nestedNeedles "abcd" 0).mpr
    ⟨"abcd", by decide +kernel, by unfold NeedleOccurs; decide +kernel⟩
  rw [hmissed] at hfound
  cases hfound

end Scan

end DomainStatus.Fingerprint
