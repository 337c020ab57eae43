import DomainStatus.Lib.Base64
import DomainStatus.Lib.Utf8

/-!
# Hashes of favicons

`compute_shodan_favicon_hash` of `src/fetch/favicon.rs`. The crate `murmur3` is a parameter. Read
`breakLines_append` first: the loop that counts characters breaks lines of 76 characters, and these
are the lines of 57 bytes.
-/

namespace DomainStatus.Fetch

open Base64

/-- The loop over the characters and their indices. -/
def breakLines (base64Str : List Char) : List Char :=
  base64Str.zipIdx.foldl
    (fun formatted entry =>
      let formatted := formatted ++ [entry.1]
      if (entry.2 + 1) % 76 = 0 then formatted ++ ['\n'] else formatted)
    []

/-- Ends the last line. -/
def endLine (formatted : List Char) : List Char :=
  if formatted.getLast? = some '\n' then formatted else formatted ++ ['\n']

/-- The text that is hashed. -/
def shodanFormat (rawBytes : List UInt8) : List Char :=
  endLine (breakLines (encodeStandard rawBytes))

/-- The hash of an icon, as a signed number. -/
def computeShodanFaviconHash (murmur3 : List UInt8 → UInt32) (rawBytes : List UInt8) : Int32 :=
  (murmur3 (Utf8.encode (shodanFormat rawBytes))).toInt32

/-! ## Lines -/

/-- What the loop adds for a character. -/
def withBreak (entry : Char × ℕ) : List Char :=
  if (entry.2 + 1) % 76 = 0 then [entry.1, '\n'] else [entry.1]

variable {line rest base64Str : List Char} {rawBytes : List UInt8}

/-- The loop adds to each character what stands behind it. -/
theorem breakLines_eq (base64Str : List Char) :
    breakLines base64Str = base64Str.zipIdx.flatMap withBreak := by
  have hfold : ∀ (entries : List (Char × ℕ)) (formatted : List Char),
      entries.foldl (fun formatted entry =>
        let formatted := formatted ++ [entry.1]
        if (entry.2 + 1) % 76 = 0 then formatted ++ ['\n'] else formatted) formatted =
      formatted ++ entries.flatMap withBreak := by
    intro entries
    induction entries with
    | nil => exact fun formatted => (List.append_nil formatted).symm
    | cons entry entries ih =>
        intro formatted
        rw [List.foldl_cons, ih, List.flatMap_cons, ← List.append_assoc]
        congr 1
        show (if _ then _ else _) = formatted ++ withBreak entry
        rw [withBreak]
        split
        · rw [List.append_assoc]
          rfl
        · rfl
  rw [breakLines, hfold, List.nil_append]

/-- Before the end of the line there is no break. -/
theorem flatMap_withBreak_short {start : ℕ} (h : start + line.length ≤ 75) :
    (line.zipIdx start).flatMap withBreak = line := by
  induction line generalizing start with
  | nil => rfl
  | cons c line ih =>
      rw [List.length_cons] at h
      rw [List.zipIdx_cons, List.flatMap_cons, ih (by omega), withBreak,
        if_neg (by dsimp only; omega)]
      rfl

/-- The lines behind a line are broken as if they came first. -/
theorem flatMap_withBreak_shift (start : ℕ) (rest : List Char) :
    (rest.zipIdx (start + 76)).flatMap withBreak = (rest.zipIdx start).flatMap withBreak := by
  induction rest generalizing start with
  | nil => rfl
  | cons c rest ih =>
      have hsame : withBreak (c, start + 76) = withBreak (c, start) := by
        rw [withBreak, withBreak]
        dsimp only
        rw [show (start + 76 + 1) % 76 = (start + 1) % 76 by omega]
      rw [List.zipIdx_cons, List.zipIdx_cons, List.flatMap_cons, List.flatMap_cons, hsame,
        show start + 76 + 1 = start + 1 + 76 by omega, ih]

/-- A short text is not broken. -/
theorem breakLines_of_short (h : base64Str.length < 76) : breakLines base64Str = base64Str := by
  rw [breakLines_eq]
  exact flatMap_withBreak_short (by omega)

/-- A full line is followed by a line break. -/
theorem breakLines_append (h : line.length = 76) (rest : List Char) :
    breakLines (line ++ rest) = line ++ '\n' :: breakLines rest := by
  obtain ⟨front, last, rfl⟩ : ∃ front last, line = front ++ [last] :=
    ⟨line.dropLast, line.getLast (by rintro rfl; cases h), (List.dropLast_append_getLast _).symm⟩
  rw [List.length_append, List.length_singleton] at h
  have hfront : front.length = 75 := by omega
  have hrest : (rest.zipIdx (0 + (front ++ [last]).length)).flatMap withBreak =
      rest.zipIdx.flatMap withBreak := by
    rw [List.length_append, hfront]
    exact flatMap_withBreak_shift 0 rest
  have hlast : ([last].zipIdx (0 + 75)).flatMap withBreak = [last, '\n'] := by
    simp [withBreak]
  rw [breakLines_eq, breakLines_eq, List.zipIdx_append, List.flatMap_append, hrest,
    List.zipIdx_append, List.flatMap_append, flatMap_withBreak_short (by omega), hfront,
    hlast, List.append_assoc, List.append_assoc]
  rfl

/-- A text that is not empty does not become so. -/
theorem breakLines_ne_nil (h : base64Str ≠ []) : breakLines base64Str ≠ [] := by
  obtain ⟨c, rest, rfl⟩ := List.exists_cons_of_ne_nil h
  rw [breakLines_eq, List.zipIdx_cons, List.flatMap_cons, withBreak]
  split <;> exact List.cons_ne_nil _ _

/-- The end of a text is that of its last line. -/
theorem endLine_append (h : rest ≠ []) :
    endLine (line ++ '\n' :: rest) = line ++ '\n' :: endLine rest := by
  have hlast : (line ++ '\n' :: rest).getLast? = rest.getLast? := by
    rw [List.getLast?_append_of_ne_nil _ (List.cons_ne_nil _ _), List.getLast?_cons,
      List.getLast?_eq_some_getLast h, Option.getD_some]
  rw [endLine, endLine, hlast]
  split
  · rfl
  · rw [List.append_assoc, List.cons_append]

/-- At most 57 bytes are one line, whether the loop breaks it or not. -/
theorem shodanFormat_line (h : rawBytes.length ≤ 57) :
    shodanFormat rawBytes = encodeStandard rawBytes ++ ['\n'] := by
  have hlength := length_encodeStandard rawBytes
  rw [shodanFormat]
  rcases Nat.lt_or_ge (encodeStandard rawBytes).length 76 with hshort | hfull
  · have hlast : (encodeStandard rawBytes).getLast? ≠ some '\n' := fun hlast =>
      newline_not_mem_encodeStandard rawBytes (List.mem_of_getLast? hlast)
    rw [breakLines_of_short hshort, endLine, if_neg hlast]
  · have hline : breakLines (encodeStandard rawBytes ++ []) =
        encodeStandard rawBytes ++ '\n' :: breakLines [] :=
      breakLines_append (by omega) []
    rw [List.append_nil] at hline
    rw [hline, endLine, if_pos (by simp [breakLines])]
    rfl

/-- The text that is hashed is the one that Python's `base64.encodebytes` makes, for any bytes but
none. -/
theorem shodan_format_eq_encodebytes (murmur3 : List UInt8 → UInt32) (rawBytes : List UInt8)
    (h : rawBytes ≠ []) :
    shodanFormat rawBytes = encodebytes rawBytes ∧
      computeShodanFaviconHash murmur3 rawBytes =
        (murmur3 (Utf8.encode (encodebytes rawBytes))).toInt32 := by
  have hformat : shodanFormat rawBytes = encodebytes rawBytes := by
    induction hlength : rawBytes.length using Nat.strong_induction_on generalizing rawBytes with
    | _ length ih =>
        rw [encodebytes_of_ne_nil h]
        rcases Nat.lt_or_ge 57 rawBytes.length with hlong | hshort
        · have htake : (rawBytes.take 57).length = 57 := by
            rw [List.length_take]
            omega
          have hdrop : rawBytes.drop 57 ≠ [] := by
            rw [ne_eq, List.drop_eq_nil_iff]
            omega
          have hline : (encodeStandard (rawBytes.take 57)).length = 76 := by
            rw [length_encodeStandard, htake]
          have hrest : encodeStandard (rawBytes.drop 57) ≠ [] := by
            have hpos := List.length_pos_of_ne_nil hdrop
            have hlength := length_encodeStandard (rawBytes.drop 57)
            exact List.ne_nil_of_length_pos (by omega)
          have hsplit : encodeStandard rawBytes =
              encodeStandard (rawBytes.take 57) ++ encodeStandard (rawBytes.drop 57) := by
            rw [← encodeStandard_append (by rw [htake]; decide), List.take_append_drop]
          rw [shodanFormat, hsplit, breakLines_append hline,
            endLine_append (breakLines_ne_nil hrest)]
          refine congrArg (encodeStandard (rawBytes.take 57) ++ '\n' :: ·) ?_
          exact ih (rawBytes.drop 57).length (by rw [List.length_drop]; omega) _ hdrop rfl
        · rw [shodanFormat_line hshort, List.take_of_length_le hshort,
            List.drop_of_length_le hshort, encodebytes_nil]
  exact ⟨hformat, by rw [computeShodanFaviconHash, hformat]⟩

/-- The first bytes of an icon file. They fill one line and start a second one. -/
def iconBytes : List UInt8 :=
  [0, 0, 1, 0] ++ List.replicate 56 255

/-- The two lines of an icon, with their hash. -/
theorem shodan_format_eq_encodebytes_icon :
    shodanFormat iconBytes = encodebytes iconBytes ∧
      encodebytes iconBytes =
        "AAABAP".toList ++ List.replicate 70 '/' ++ "\n////\n".toList ∧
      computeShodanFaviconHash (fun _ => 2695355694) iconBytes = -1599611602 := by
  have h := shodan_format_eq_encodebytes (fun _ => 2695355694) iconBytes (by decide)
  exact ⟨h.1, by decide +kernel, h.2.trans (by decide)⟩

end DomainStatus.Fetch
