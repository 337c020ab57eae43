import DomainStatus.Lib.Lowercase

/-!
# The meta refresh of a page

The step of `parse_html_content` in `src/fetch/response/html.rs` that reads the target of
`<meta http-equiv="refresh" content="0;url=...">`. It searches the lower case of the content and
slices the content itself at the offset found. A result of `none` stands for a panic of that slice.
-/

namespace DomainStatus.Fetch

open Text

variable (properties : CaseProperties)

/-- The closure on the first content of `http-equiv:refresh`. -/
def parseMetaRefresh (content : List Char) : Option (Option (List Char)) :=
  match find "url=".toList (toLowercase properties content) with
  | some pos => do
      let tail ← slice content (pos + 4) (len content)
      let urlPart := trimChars tail
      return if urlPart = [] then none else some urlPart
  | none => some none

/-- The target of the refresh: the trimmed text behind the first `url=`. -/
def metaRefreshTarget (content : List Char) : Option (List Char) :=
  match splitOnceIgnoringCase "url=".toList content with
  | some (_, after) => if trimChars after = [] then none else some (trimChars after)
  | none => none

variable {properties : CaseProperties} {content before after tail : List Char}

/-- The results agree when the trimmed texts do. -/
theorem nonempty_trimmed_inj :
    ((if trimChars tail = [] then none else some (trimChars tail) : Option (List Char)) =
      if trimChars after = [] then none else some (trimChars after)) ↔
      trimChars tail = trimChars after := by
  constructor
  · intro h
    split at h <;> split at h
    next htail hafter => rw [htail, hafter]
    · cases h
    · cases h
    · exact Option.some.inj h
  · intro h
    rw [h]

/-- The slice is right when it starts in the whitespace behind the marker, or at its end. -/
theorem trimmed_slice_iff (before after marker : List Char) {last : Char}
    (hlast : isWhitespace last = false) (pos : ℕ) :
    (∃ tail, slice (before ++ (marker ++ [last]) ++ after) (pos + len (marker ++ [last]))
        (len (before ++ (marker ++ [last]) ++ after)) = some tail ∧
        trimChars tail = trimChars after) ↔
      ∃ gap rest, after = gap ++ rest ∧ Blank gap ∧ pos = len before + len gap := by
  constructor
  · intro h
    obtain ⟨tail, hslice, htrim⟩ := h
    obtain ⟨lead, rest, htext, hlead, hstop⟩ := exists_append_of_slice hslice
    have hrest : rest = [] := by
      apply eq_nil_of_len_eq_zero
      have hlen : len (before ++ (marker ++ [last]) ++ after) = len lead + len tail + len rest := by
        rw [htext, len_append, len_append]
      omega
    rw [hrest, List.append_nil] at htext
    rcases Nat.le_total (len (before ++ (marker ++ [last]))) (len lead) with hle | hle
    · obtain ⟨gap, hgap, hafter⟩ := append_eq_append_of_len_le htext hle
      refine ⟨gap, tail, hafter, ?_, ?_⟩
      · rw [hafter] at htrim
        exact trimChars_append_eq_iff.mp htrim.symm
      · rw [hgap, len_append, len_append] at hlead
        omega
    · -- A slice from before the end of the marker has the last character of the marker in it.
      obtain ⟨extra, hextra, htail⟩ := append_eq_append_of_len_le htext.symm hle
      rw [htail] at htrim
      have hblank := trimChars_append_eq_iff.mp htrim
      rcases List.eq_nil_or_concat extra with rfl | ⟨front, c, rfl⟩
      · refine ⟨[], after, rfl, fun c hc => absurd hc List.not_mem_nil, ?_⟩
        have hlen := congrArg len hextra
        rw [List.append_nil, hlead, len_append] at hlen
        show pos = len before + 0
        omega
      · rw [← List.append_assoc, List.concat_eq_append, ← List.append_assoc] at hextra
        obtain ⟨-, hc⟩ := List.append_inj' hextra rfl
        have hspace := hblank c (by simp)
        rw [← List.singleton_inj.mp hc, hlast] at hspace
        cases hspace
  · intro h
    obtain ⟨gap, rest, rfl, hgap, rfl⟩ := h
    refine ⟨rest, ?_, (blank_append_trimChars hgap).symm⟩
    have hslice : slice (before ++ (marker ++ [last]) ++ gap ++ rest ++ [])
        (len (before ++ (marker ++ [last]) ++ gap))
        (len (before ++ (marker ++ [last]) ++ gap) + len rest) = some rest :=
      slice_append
    rw [List.append_nil, List.append_assoc _ gap rest] at hslice
    have hstart : len before + len gap + len (marker ++ [last]) =
        len (before ++ (marker ++ [last]) ++ gap) := by
      simp only [len_append]
      omega
    have hstop : len (before ++ (marker ++ [last]) ++ (gap ++ rest)) =
        len (before ++ (marker ++ [last]) ++ gap) + len rest := by
      simp only [len_append]
      omega
    rw [hstart, hstop]
    exact hslice

/-- The step reads the target of every content exactly as far as the lower case of what stands in
front of the first `url=` is as long as that text itself, or is longer by whitespace that follows
the `url=`. -/
theorem meta_refresh_exact_iff (properties : CaseProperties) (content : List Char) :
    parseMetaRefresh properties content = some (metaRefreshTarget content) ↔
      ∀ before after, splitOnceIgnoringCase "url=".toList content = some (before, after) →
        ∃ gap rest, after = gap ++ rest ∧ Blank gap ∧
          len (toLowercase properties before) = len before + len gap := by
  have hfind : find "url=".toList (toLowercase properties content) =
      (splitOnceIgnoringCase "url=".toList content).map fun parts =>
        len (toLowercase properties parts.1) :=
    find_toLowercase (by decide) (by decide)
  unfold parseMetaRefresh metaRefreshTarget
  rw [hfind]
  cases hsplit : splitOnceIgnoringCase "url=".toList content with
  | none => simp
  | some parts =>
      obtain ⟨before, after⟩ := parts
      obtain ⟨marker, rfl, hmarker⟩ := splitOnceIgnoringCase_spec hsplit
      obtain ⟨front, tail', rfl, -, htail⟩ :=
        List.map_eq_append_iff.mp
          (show marker.map Char.toLower = "url".toList ++ ['='] from hmarker)
      obtain ⟨last, rfl, hlast⟩ := List.map_eq_singleton_iff.mp htail
      have hequals : last = '=' := eq_of_toLower_eq (by decide) hlast
      have hspace : isWhitespace last = false := by
        rw [hequals]
        decide
      have hlen : len (front ++ [last]) = 4 := by
        rw [← len_map_toLower, hmarker]
        decide
      have hiff := trimmed_slice_iff before after front hspace
        (len (toLowercase properties before))
      rw [hlen] at hiff
      show Option.bind _ _ =
        some (if trimChars after = [] then none else some (trimChars after)) ↔ _
      rw [Option.bind_eq_some_iff]
      constructor
      · intro h before' after' heq
        obtain ⟨rfl, rfl⟩ := Prod.mk.inj (Option.some.inj heq)
        obtain ⟨tail, hslice, hresult⟩ := h
        exact hiff.mp ⟨tail, hslice, nonempty_trimmed_inj.mp (Option.some.inj hresult)⟩
      · intro h
        obtain ⟨tail, hslice, htrim⟩ := hiff.mpr (h before after rfl)
        exact ⟨tail, hslice, congrArg some (nonempty_trimmed_inj.mpr htrim)⟩

/-- Behind an `İ`, whose lower case has a byte more, the slice starts inside of the `é`. -/
theorem meta_refresh_panics :
    ¬∃ properties : CaseProperties, ∀ content : List Char,
      parseMetaRefresh properties content = some (metaRefreshTarget content) := by
  rintro ⟨properties, h⟩
  have hfind : find "url=".toList (toLowercase properties "İurl=é".toList) =
      (splitOnceIgnoringCase "url=".toList "İurl=é".toList).map fun parts =>
        len (toLowercase properties parts.1) :=
    find_toLowercase (by decide) (by decide)
  have hsplit : splitOnceIgnoringCase "url=".toList "İurl=é".toList =
      some ("İ".toList, "é".toList) := by decide
  have hlen : len (toLowercase properties "İ".toList) = 3 := by
    show len (toLowercase properties ['İ']) = 3
    rw [len_toLowercase_cons, show len (lowercaseChar 'İ') = 3 from by decide]
    rfl
  rw [hsplit, Option.map_some, hlen] at hfind
  have hpanic : parseMetaRefresh properties "İurl=é".toList = none := by
    unfold parseMetaRefresh
    rw [hfind]
    decide
  have hresult := h "İurl=é".toList
  rw [hpanic] at hresult
  cases hresult

end DomainStatus.Fetch
