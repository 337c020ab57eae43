import DomainStatus.Lib.Occurrences

/-!
# The line around a secret

`line_containing` of `src/parse/secrets.rs`: the text that the allowlists of a rule read when their
target is the line. A page may have no line breaks at all, so a side of the line ends after 512
bytes. Read `IsLineOf` first, and then `line_containing_spec`. A result of `none` stands for a panic
of a slice, or for a loop that goes on for longer than its fuel.
-/

namespace DomainStatus.Secrets

open Text

/-- How far a line is looked at on each side of a match. -/
def maxLineWindowBytes : ℕ := 512

/-- `while !body.is_char_boundary(offset) { offset += 1 }`. -/
def snapForward (body : List Char) : ℕ → ℕ → Option ℕ
  | 0, _ => none
  | fuel + 1, offset =>
      if isCharBoundary body offset then some offset else snapForward body fuel (offset + 1)

/-- `while !body.is_char_boundary(offset) { offset -= 1 }`. It panics below zero. -/
def snapBack (body : List Char) : ℕ → ℕ → Option ℕ
  | 0, _ => none
  | fuel + 1, offset =>
      if isCharBoundary body offset then some offset
      else if offset = 0 then none
      else snapBack body fuel (offset - 1)

/-- The line of a match, or as much of it as is in the window. -/
def lineContaining (fuel : ℕ) (body : List Char) (start stop : ℕ) : Option (List Char) := do
  let windowStart ← snapForward body fuel (start - maxLineWindowBytes)
  let windowEnd ← snapBack body fuel (min (stop + maxLineWindowBytes) (len body))
  let lead ← slice body windowStart start
  let lineStart := (rfind ['\n'] lead).elim windowStart fun i => windowStart + i + 1
  let rest ← slice body stop windowEnd
  let lineEnd := (find ['\n'] rest).elim windowEnd fun i => stop + i
  slice body lineStart lineEnd

variable {body lead mid rest front back text : List Char} {start stop offset fuel i : ℕ}

/-! ## Snapping -/

/-- Four steps are enough to reach the next boundary. -/
theorem snapForward_isLeast (hfuel : 4 ≤ fuel) (h : offset ≤ len body) :
    ∃ next, snapForward body fuel offset = some next ∧
      IsLeast {i | isCharBoundary body i = true ∧ offset ≤ i} next := by
  obtain ⟨behind, hboundary, hle, hlt⟩ := exists_isCharBoundary_ge h
  have hreach : behind < offset + fuel := by omega
  clear hfuel h hlt
  induction fuel generalizing offset with
  | zero => omega
  | succ fuel ih =>
      rw [snapForward]
      by_cases hhere : isCharBoundary body offset = true
      · rw [if_pos hhere]
        exact ⟨offset, rfl, ⟨hhere, Nat.le_refl _⟩, fun i hi => hi.2⟩
      · rw [if_neg hhere]
        have hnext {i : ℕ} (hi : isCharBoundary body i = true) (hle : offset ≤ i) :
            offset + 1 ≤ i := by
          have hne : i ≠ offset := fun heq => hhere (heq ▸ hi)
          omega
        obtain ⟨next, hsnap, ⟨hfound, hbehind⟩, hleast⟩ := ih (hnext hboundary hle) (by omega)
        refine ⟨next, hsnap, ⟨hfound, by omega⟩, fun i hi => ?_⟩
        exact hleast ⟨hi.1, hnext hi.1 hi.2⟩

/-- Four steps are enough to reach the boundary before, and it is never below zero. -/
theorem snapBack_isGreatest (hfuel : 4 ≤ fuel) (h : offset ≤ len body) :
    ∃ previous, snapBack body fuel offset = some previous ∧
      IsGreatest {i | isCharBoundary body i = true ∧ i ≤ offset} previous := by
  obtain ⟨before, hboundary, hle, hlt⟩ := exists_isCharBoundary_le h
  have hreach : offset < before + fuel := by omega
  clear hfuel h hlt
  induction fuel generalizing offset with
  | zero => omega
  | succ fuel ih =>
      rw [snapBack]
      by_cases hhere : isCharBoundary body offset = true
      · rw [if_pos hhere]
        exact ⟨offset, rfl, ⟨hhere, Nat.le_refl _⟩, fun i hi => hi.2⟩
      · have hpos : offset ≠ 0 := by
          intro hzero
          rw [hzero] at hhere
          exact hhere isCharBoundary_zero
        rw [if_neg hhere, if_neg hpos]
        have hprevious {i : ℕ} (hi : isCharBoundary body i = true) (hle : i ≤ offset) :
            i ≤ offset - 1 := by
          have hne : i ≠ offset := fun heq => hhere (heq ▸ hi)
          omega
        obtain ⟨previous, hsnap, ⟨hfound, hbefore⟩, hgreatest⟩ :=
          ih (hprevious hboundary hle) (by omega)
        refine ⟨previous, hsnap, ⟨hfound, by omega⟩, fun i hi => ?_⟩
        exact hgreatest ⟨hi.1, hprevious hi.1 hi.2⟩

/-! ## The sides of a line -/

/-- What may stand on one side of a match in its line. -/
def IsLineSide (side : List Char) : Prop :=
  len side ≤ maxLineWindowBytes ∧ '\n' ∉ side

/-- An end without a character stands behind that character. -/
theorem suffix_of_not_mem {c : Char} {other : List Char} (hother : other <:+ front ++ c :: back)
    (hc : c ∉ other) : other <:+ back := by
  rcases List.suffix_or_suffix_of_suffix hother (List.suffix_append front (c :: back)) with h | h
  · rcases List.suffix_cons_iff.mp h with rfl | h
    · exact absurd List.mem_cons_self hc
    · exact h
  · exact absurd (h.subset List.mem_cons_self) hc

/-- A start without a character stands before that character. -/
theorem prefix_of_not_mem {c : Char} {other : List Char} (hother : other <+: front ++ c :: back)
    (hc : c ∉ other) : other <+: front := by
  have hcut : front ++ [c] <+: front ++ c :: back := ⟨back, by simp⟩
  rcases List.prefix_or_prefix_of_prefix hother hcut with h | h
  · rcases List.prefix_concat_iff.mp h with rfl | h
    · exact absurd (List.mem_append_right front List.mem_cons_self) hc
    · exact h
  · exact absurd (h.subset (List.mem_append_right front List.mem_cons_self)) hc

/-- The text before a match, from the last line break of its window on. -/
theorem lead_isLongestEnd {first : ℕ} {window : List Char}
    (hfirst : IsLeast
      {i | isCharBoundary (front ++ back) i = true ∧ len front - maxLineWindowBytes ≤ i} first)
    (hwindow : slice (front ++ back) first (len front) = some window) :
    ∃ before lead, front = before ++ lead ∧
      len before = (rfind ['\n'] window).elim first (fun i => first + i + 1) ∧
      IsLongestEnd front IsLineSide lead := by
  obtain ⟨before, rfl, rfl⟩ := exists_eq_append_of_slice_front hwindow
  have hfits : len window ≤ maxLineWindowBytes := by
    have hlow := hfirst.1.2
    rw [len_append] at hlow
    omega
  rcases rfind_char_cases '\n' window with ⟨hrfind, hnone⟩ | ⟨head, tail, rfl, hrfind, hbreak⟩
  · rw [hrfind]
    refine ⟨before, window, rfl, rfl, ⟨before, rfl⟩, ⟨hfits, hnone⟩, fun other hother hside => ?_⟩
    -- the window starts at the first boundary that another end can start at
    refine suffix_of_suffix_len_le hother ⟨before, rfl⟩ ?_
    obtain ⟨init, hinit⟩ := hother
    have hlen := congrArg len hinit
    have hboundary : isCharBoundary (before ++ window ++ back) (len init) = true :=
      isCharBoundary_iff.mpr ⟨init, other ++ back, by rw [← hinit, List.append_assoc], rfl⟩
    have hshort := hside.1
    rw [len_append] at hlen
    have hleast := hfirst.2 ⟨hboundary, by omega⟩
    rw [len_append] at hlen
    omega
  · rw [hrfind]
    have hcut : before ++ (head ++ '\n' :: tail) = before ++ head ++ ['\n'] ++ tail := by simp
    refine ⟨before ++ head ++ ['\n'], tail, hcut, ?_, ⟨_, hcut.symm⟩, ⟨?_, hbreak⟩, ?_⟩
    · rw [len_append, len_append]
      rfl
    · rw [len_append, len_cons] at hfits
      omega
    · intro other hother hside
      rw [← List.append_assoc] at hother
      exact suffix_of_not_mem hother hside.2

/-- The text behind a match, up to the first line break of its window. -/
theorem rest_isLongestStart {last : ℕ} {window : List Char}
    (hlast : IsGreatest {i | isCharBoundary (front ++ back) i = true ∧
      i ≤ min (len front + maxLineWindowBytes) (len (front ++ back))} last)
    (hwindow : slice (front ++ back) (len front) last = some window) :
    ∃ rest behind, back = rest ++ behind ∧
      len front + len rest =
        (find ['\n'] window).elim last (fun i => len front + i) ∧
      IsLongestStart back IsLineSide rest := by
  obtain ⟨behind, rfl, rfl⟩ := exists_eq_append_of_slice_back hwindow
  have hfits : len window ≤ maxLineWindowBytes := by
    have hhigh := hlast.1.2
    omega
  rcases find_char_cases '\n' window with ⟨hfind, hnone⟩ | ⟨head, tail, rfl, hfind, hbreak⟩
  · rw [hfind]
    refine ⟨window, behind, rfl, rfl, ⟨behind, rfl⟩, ⟨hfits, hnone⟩, fun other hother hside => ?_⟩
    -- the window ends at the last boundary that another start can end at
    refine prefix_of_prefix_len_le hother ⟨behind, rfl⟩ ?_
    obtain ⟨tail, htail⟩ := hother
    rw [← htail] at hlast
    have hboundary : isCharBoundary (front ++ (other ++ tail)) (len front + len other) = true :=
      isCharBoundary_iff.mpr ⟨front ++ other, tail, (List.append_assoc ..).symm, len_append⟩
    have hshort := hside.1
    have hgreatest := hlast.2 ⟨hboundary, by rw [len_append, len_append]; omega⟩
    omega
  · rw [hfind]
    have hcut : head ++ '\n' :: tail ++ behind = head ++ '\n' :: (tail ++ behind) := by simp
    refine ⟨head, '\n' :: (tail ++ behind), hcut, rfl, ⟨_, hcut.symm⟩, ⟨?_, hbreak⟩, ?_⟩
    · rw [len_append] at hfits
      omega
    · intro other hother hside
      rw [hcut] at hother
      exact prefix_of_not_mem hother hside.2

/-- Why a longest side does not start earlier. -/
theorem leadStops (h : IsLongestEnd (front ++ lead) IsLineSide lead) :
    front = [] ∨ ∃ init c, front = init ++ [c] ∧
      (c = '\n' ∨ maxLineWindowBytes < c.utf8Size + len lead) := by
  rcases List.eq_nil_or_concat front with hnil | ⟨init, c, hfront⟩
  · exact Or.inl hnil
  · rw [List.concat_eq_append] at hfront
    refine Or.inr ⟨init, c, hfront, ?_⟩
    by_contra hgoes
    obtain ⟨hne, hfits⟩ := not_or.mp hgoes
    have hmem : '\n' ∉ c :: lead := by
      rw [List.mem_cons]
      exact not_or.mpr ⟨fun heq => hne heq.symm, h.holds.2⟩
    have hlonger := h.longest (c :: lead) ⟨init, by rw [hfront]; simp⟩
      ⟨by rw [len_cons]; omega, hmem⟩
    exact absurd hlonger.length_le (by simp)

/-- Why a longest side does not end later. -/
theorem restStops (h : IsLongestStart (rest ++ back) IsLineSide rest) :
    back = [] ∨ ∃ c tail, back = c :: tail ∧
      (c = '\n' ∨ maxLineWindowBytes < len rest + c.utf8Size) := by
  cases back with
  | nil => exact Or.inl rfl
  | cons c tail =>
      refine Or.inr ⟨c, tail, rfl, ?_⟩
      by_contra hgoes
      obtain ⟨hne, hfits⟩ := not_or.mp hgoes
      have hmem : '\n' ∉ rest ++ [c] := by
        rw [List.mem_append, List.mem_singleton]
        exact not_or.mpr ⟨h.holds.2, fun heq => hne heq.symm⟩
      have hlonger := h.longest (rest ++ [c]) ⟨tail, by simp⟩
        ⟨by rw [len_append, len_cons, len_nil]; omega, hmem⟩
      exact absurd hlonger.length_le (by simp)

/-- A line around a match: as much text on each side as has no line break and no more than 512
bytes. It stops at the edge of the body, at a line break, or at a character that does not fit. -/
structure IsLineOf (body : List Char) (start stop : ℕ) (before lead mid rest behind : List Char) :
    Prop where
  body_eq : body = before ++ lead ++ mid ++ rest ++ behind
  start_eq : len (before ++ lead) = start
  stop_eq : len (before ++ lead ++ mid) = stop
  leadSide : IsLongestEnd (before ++ lead) IsLineSide lead
  restSide : IsLongestStart (rest ++ behind) IsLineSide rest
  leadStops : before = [] ∨ ∃ init c, before = init ++ [c] ∧
    (c = '\n' ∨ maxLineWindowBytes < c.utf8Size + len lead)
  restStops : behind = [] ∨ ∃ c tail, behind = c :: tail ∧
    (c = '\n' ∨ maxLineWindowBytes < len rest + c.utf8Size)

/-- Between boundaries the line of a match is found without a panic, and neither loop takes more
than four steps. -/
theorem line_containing_spec (hle : start ≤ stop) (hstart : isCharBoundary body start = true)
    (hstop : isCharBoundary body stop = true) (hfuel : 4 ≤ fuel) :
    ∃ before lead mid rest behind, IsLineOf body start stop before lead mid rest behind ∧
      lineContaining fuel body start stop = some (lead ++ mid ++ rest) := by
  have hlen := le_len_of_isCharBoundary hstop
  obtain ⟨front, mid, back, hbody, hfront, hmid⟩ :=
    exists_append_of_isCharBoundary hle hstart hstop
  obtain ⟨first, hforward, hfirst⟩ := snapForward_isLeast hfuel
    (by omega : start - maxLineWindowBytes ≤ len body)
  obtain ⟨last, hback, hlast⟩ := snapBack_isGreatest hfuel
    (Nat.min_le_right (stop + maxLineWindowBytes) (len body))
  have hfirstLe : first ≤ start := hfirst.2 ⟨hstart, Nat.sub_le _ _⟩
  have hlastGe : stop ≤ last := hlast.2 ⟨hstop, by omega⟩
  obtain ⟨-, leadWindow, -, hleadWindow, -⟩ :=
    slice_append_slice (Nat.le_refl first) hfirstLe hfirst.1.1 hfirst.1.1 hstart
  obtain ⟨restWindow, -, hrestWindow, -, -⟩ :=
    slice_append_slice hlastGe (Nat.le_refl last) hstop hlast.1.1 hlast.1.1
  obtain ⟨before, lead, hlead, hlineStart, hleadSide⟩ :
      ∃ before lead, front = before ++ lead ∧
        len before = (rfind ['\n'] leadWindow).elim first (fun i => first + i + 1) ∧
        IsLongestEnd front IsLineSide lead := by
    rw [← hfront] at hfirst hleadWindow
    rw [hbody, List.append_assoc] at hfirst hleadWindow
    exact lead_isLongestEnd hfirst hleadWindow
  obtain ⟨rest, behind, hrest, hlineEnd, hrestSide⟩ :
      ∃ rest behind, back = rest ++ behind ∧
        len (front ++ mid) + len rest =
          (find ['\n'] restWindow).elim last (fun i => len (front ++ mid) + i) ∧
        IsLongestStart back IsLineSide rest := by
    rw [← hmid, ← len_append] at hlast hrestWindow
    rw [hbody] at hlast hrestWindow
    exact rest_isLongestStart hlast hrestWindow
  subst hlead hrest
  rw [← List.append_assoc] at hbody
  refine ⟨before, lead, mid, rest, behind, ⟨hbody, hfront, ?_, hleadSide, hrestSide,
    leadStops hleadSide, restStops hrestSide⟩, ?_⟩
  · rw [len_append, hmid]
  · have hline : slice body (len before) (len before + len (lead ++ mid ++ rest)) =
        some (lead ++ mid ++ rest) := by
      refine slice_eq_some_iff.mpr ⟨before, behind, ?_, rfl, rfl⟩
      simp only [hbody, List.append_assoc]
    have hend : len before + len (lead ++ mid ++ rest) =
        (find ['\n'] restWindow).elim last (fun i => stop + i) := by
      rw [len_append, hmid] at hlineEnd
      rw [← hlineEnd, ← hmid]
      simp only [len_append]
      omega
    rw [lineContaining, hforward, hback]
    simp only [Option.bind_eq_bind, Option.bind_some, hleadWindow, hrestWindow]
    rw [← hlineStart, ← hend, hline]

/-- A match on a minified page, next to characters of three bytes. -/
theorem line_containing_spec_minified :
    ∃ before lead mid rest behind,
      IsLineOf (List.replicate 200 '€' ++ ['k'] ++ List.replicate 200 '€') 600 601
        before lead mid rest behind ∧
      lineContaining 4 (List.replicate 200 '€' ++ ['k'] ++ List.replicate 200 '€') 600 601 =
        some (lead ++ mid ++ rest) :=
  line_containing_spec (by decide) (by decide) (by decide) (by decide)

end DomainStatus.Secrets
