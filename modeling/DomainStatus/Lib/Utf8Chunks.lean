import DomainStatus.Lib.Utf8

/-!
# Texts in chunks of bytes

A text whose bytes come in chunks, each of which is read alone, with errors. A chunk may end inside
of a character, which then gives replacement characters. Read `intact_or_split` first, and then
`truncate_decodeChunks_iff`: when the first bytes of the text are still the same.
-/

namespace Utf8

open Text

/-- Every chunk is read alone. -/
def decodeChunks (chunks : List (List UInt8)) : List Char :=
  chunks.flatMap decodeLossy

/-- A chunk starts at the offset, or the last one ends there. -/
def IsCut (chunks : List (List UInt8)) (offset : ℕ) : Prop :=
  ∃ front back, chunks = front ++ back ∧ front.flatten.length = offset

variable {text : List Char} {c : Char} {b : UInt8} {bytes first tail more : List UInt8}
  {chunks : List (List UInt8)} {offset : ℕ}

/-- A cut behind the start of the first chunk. -/
theorem isCut_cons_iff (hpos : 0 < offset) :
    IsCut (first :: chunks) offset ↔ first.length ≤ offset ∧
      IsCut chunks (offset - first.length) := by
  constructor
  · intro h
    obtain ⟨front, back, hchunks, hlen⟩ := h
    cases front with
    | nil => exact absurd hlen (Nat.ne_of_lt hpos)
    | cons chunk front =>
        obtain ⟨rfl, hrest⟩ := List.cons.inj hchunks
        rw [List.flatten_cons, List.length_append] at hlen
        exact ⟨by omega, front, back, hrest, by omega⟩
  · intro h
    obtain ⟨hle, front, back, rfl, hlen⟩ := h
    refine ⟨first :: front, back, rfl, ?_⟩
    rw [List.flatten_cons, List.length_append]
    omega

/-- The rest of a character whose start is in an earlier chunk. -/
theorem decodeChunks_continuations (htail : ∀ b ∈ tail, IsContinuation b)
    (h : chunks.flatten = tail ++ bytes) :
    ∃ later, later.flatten = bytes ∧
      decodeChunks chunks = List.replicate tail.length replacement ++ decodeChunks later := by
  induction chunks generalizing tail with
  | nil =>
      obtain ⟨rfl, rfl⟩ := List.append_eq_nil_iff.mp h.symm
      exact ⟨[], rfl, rfl⟩
  | cons chunk chunks ih =>
      rw [List.flatten_cons] at h
      rcases List.append_eq_append_iff.mp h with ⟨more, rfl, hrest⟩ | ⟨more, rfl, hrest⟩
      · rw [List.forall_mem_append] at htail
        obtain ⟨later, hlater, hdecode⟩ := ih htail.2 hrest
        have hchunk := decodeLossy_continuations htail.1 []
        rw [List.append_nil, decodeLossy_nil, List.append_nil] at hchunk
        refine ⟨later, hlater, ?_⟩
        rw [decodeChunks, List.flatMap_cons, hchunk, ← decodeChunks, hdecode, List.length_append,
          List.replicate_add, List.append_assoc]
      · refine ⟨more :: chunks, ?_, ?_⟩
        · rw [List.flatten_cons, hrest]
        · rw [decodeChunks, List.flatMap_cons, decodeLossy_continuations htail, decodeChunks,
            List.flatMap_cons, List.append_assoc]

/-- A character whose bytes are in one chunk, with the chunks that are left behind it. -/
structure Intact (c : Char) (chunks later : List (List UInt8)) : Prop where
  decode : decodeChunks chunks = c :: decodeChunks later
  noCut : ∀ offset, 0 < offset → offset < c.utf8Size → ¬IsCut chunks offset
  cuts : ∀ offset, 0 < offset → (IsCut chunks (c.utf8Size + offset) ↔ IsCut later offset)

/-- A character that a chunk ends inside of gives more than one replacement character. -/
structure Split (c : Char) (chunks later : List (List UInt8)) : Prop where
  decode : ∃ count, decodeChunks chunks =
    replacement :: replacement :: List.replicate count replacement ++ decodeChunks later
  cut : ∃ offset, 0 < offset ∧ offset < c.utf8Size ∧ IsCut chunks offset

/-- A character at the start of the chunks lies in the first one, or goes on behind it. -/
theorem first_chunk_cases {char : List UInt8} (h : first ++ more = char ++ bytes) :
    (∃ rest, first = char ++ rest ∧ bytes = rest ++ more) ∨
      ∃ rest, rest ≠ [] ∧ char = first ++ rest ∧ more = rest ++ bytes := by
  rcases List.append_eq_append_iff.mp h with ⟨rest, hchar, hmore⟩ | hwhole
  · rcases eq_or_ne rest [] with rfl | hne
    · rw [List.append_nil] at hchar
      exact Or.inl ⟨[], by rw [hchar, List.append_nil], hmore.symm⟩
    · exact Or.inr ⟨rest, hne, hchar, hmore⟩
  · exact Or.inl hwhole

/-- A character is intact in the chunk that begins with it. -/
theorem intact_of_first (c : Char) (rest : List UInt8) (chunks : List (List UInt8)) :
    Intact c ((String.utf8EncodeChar c ++ rest) :: chunks) (rest :: chunks) := by
  have hsize : (String.utf8EncodeChar c).length = c.utf8Size := String.length_utf8EncodeChar c
  have hsizePos := c.utf8Size_pos
  constructor
  · rw [decodeChunks, List.flatMap_cons, decodeLossy_encodeChar_append]
    rfl
  · intro offset hpos hlt
    rw [isCut_cons_iff hpos, List.length_append]
    omega
  · intro offset hpos
    have hback : c.utf8Size + offset - (c.utf8Size + rest.length) = offset - rest.length := by omega
    rw [isCut_cons_iff (by omega), isCut_cons_iff hpos, List.length_append, hsize, hback,
      Nat.add_le_add_iff_left]

/-- A character is split when its bytes go on in a later chunk. -/
theorem split_of_first {front rest : List UInt8}
    (hchar : String.utf8EncodeChar c = b :: front ++ rest) (hne : rest ≠ [])
    (h : chunks.flatten = rest ++ bytes) :
    ∃ later, later.flatten = bytes ∧ Split c ((b :: front) :: chunks) later := by
  have hsize : (String.utf8EncodeChar c).length = c.utf8Size := String.length_utf8EncodeChar c
  obtain ⟨byte, tail, lead, hspelled⟩ := exists_spelled c
  have hsame : b :: (front ++ rest) = byte :: tail := by
    rw [← hspelled.encoded, hchar, List.cons_append]
  obtain ⟨rfl, rfl⟩ := List.cons.inj hsame
  have hrest : ∀ b ∈ rest, IsContinuation b := fun b hb =>
    hspelled.continuation b (List.mem_append_right front hb)
  obtain ⟨later, hlater, hdecode⟩ := decodeChunks_continuations hrest h
  refine ⟨later, hlater, ⟨?_, ?_⟩⟩
  · have hpos := List.length_pos_of_ne_nil hne
    refine ⟨rest.length - 1, ?_⟩
    -- the first chunk gives one replacement character, the rest one for each of its bytes
    have hfirst : decodeLossy (b :: front) = [replacement] := by
      rw [decodeLossy_cons, hspelled.readChar_cut hne]
      rfl
    obtain ⟨count, hcount⟩ : ∃ count, rest.length = count + 1 := ⟨rest.length - 1, by omega⟩
    rw [decodeChunks, List.flatMap_cons, hfirst, ← decodeChunks, hdecode, hcount,
      Nat.add_sub_cancel, List.replicate_succ]
    rfl
  · rw [hchar, List.length_append] at hsize
    have hpos := List.length_pos_of_ne_nil hne
    exact ⟨(b :: front).length, Nat.succ_pos _, by omega, [b :: front], chunks, rfl, by simp⟩

/-- An empty chunk cuts nothing. -/
theorem isCut_nil_cons_iff (hpos : 0 < offset) :
    IsCut ([] :: chunks) offset ↔ IsCut chunks offset := by
  rw [isCut_cons_iff hpos]
  exact and_iff_right (Nat.zero_le _)

/-- The first character of a text in chunks is intact or split. -/
theorem intact_or_split (h : chunks.flatten = String.utf8EncodeChar c ++ bytes) :
    ∃ later, later.flatten = bytes ∧ (Intact c chunks later ∨ Split c chunks later) := by
  induction chunks with
  | nil =>
      have hsize := String.length_utf8EncodeChar c
      have hpos := c.utf8Size_pos
      rw [(List.append_eq_nil_iff.mp h.symm).1, List.length_nil] at hsize
      omega
  | cons chunk chunks ih =>
      rw [List.flatten_cons] at h
      rcases first_chunk_cases h with ⟨rest, rfl, rfl⟩ | ⟨rest, hne, hchar, hrest⟩
      · exact ⟨rest :: chunks, List.flatten_cons, Or.inl (intact_of_first c rest chunks)⟩
      · cases chunk with
        | cons b front =>
            obtain ⟨later, hlater, hsplit⟩ := split_of_first hchar hne hrest
            exact ⟨later, hlater, Or.inr hsplit⟩
        | nil =>
            rw [List.nil_append] at hchar
            rw [← hchar] at hrest
            obtain ⟨later, hlater, hintact | hsplit⟩ := ih hrest
            · refine ⟨later, hlater, Or.inl ⟨hintact.decode, fun offset hpos => ?_, ?_⟩⟩
              · rw [isCut_nil_cons_iff hpos]
                exact hintact.noCut offset hpos
              · intro offset hpos
                rw [isCut_nil_cons_iff (by omega)]
                exact hintact.cuts offset hpos
            · obtain ⟨offset, hpos, hlt, hcut⟩ := hsplit.cut
              exact ⟨later, hlater,
                Or.inr ⟨hsplit.decode, offset, hpos, hlt, (isCut_nil_cons_iff hpos).mpr hcut⟩⟩

/-- The replacement characters at the start of a text. -/
def replacements (text : List Char) : List Char :=
  text.takeWhile (· == replacement)

/-- What stands behind them. -/
def afterReplacements (text : List Char) : List Char :=
  text.dropWhile (· == replacement)

@[simp] theorem replacements_nil : replacements [] = [] :=
  rfl

@[simp] theorem replacements_cons_self :
    replacements (replacement :: text) = replacement :: replacements text :=
  List.takeWhile_cons_of_pos (beq_self_eq_true _)

/-- Another character ends the replacement characters at the front. -/
theorem replacements_cons_of_ne (h : c ≠ replacement) : replacements (c :: text) = [] :=
  List.takeWhile_cons_of_neg (by simpa using h)

@[simp] theorem afterReplacements_cons_self :
    afterReplacements (replacement :: text) = afterReplacements text :=
  List.dropWhile_cons_of_pos (beq_self_eq_true _)

/-- Another character is what follows them. -/
theorem afterReplacements_cons_of_ne (h : c ≠ replacement) :
    afterReplacements (c :: text) = c :: text :=
  List.dropWhile_cons_of_neg (by simpa using h)

/-- More replacement characters in front do not hurt. -/
theorem replacements_prefix_replicate (count : ℕ) {decoded : List Char}
    (h : replacements text <+: decoded) :
    replacements text <+: List.replicate count replacement ++ decoded := by
  induction count with
  | zero => exact h
  | succ count ih =>
      have hall : replacements text = List.replicate (replacements text).length replacement :=
        List.eq_replicate_of_mem fun d hd => by simpa using List.mem_takeWhile_imp hd
      rw [hall] at ih ⊢
      have hmore : List.replicate (replacements text).length replacement <+:
          replacement :: List.replicate (replacements text).length replacement := by
        rw [← List.replicate_succ, List.replicate_succ']
        exact List.prefix_append _ _
      exact hmore.trans (List.cons_prefix_cons.mpr ⟨rfl, ih⟩)

/-- However a text is cut, the replacement characters at its start are read. -/
theorem replacements_prefix (h : chunks.flatten = encode text) :
    replacements text <+: decodeChunks chunks := by
  induction text generalizing chunks with
  | nil => exact List.nil_prefix
  | cons c text ih =>
      by_cases hc : c = replacement
      · subst hc
        obtain ⟨later, hlater, hintact | hsplit⟩ := intact_or_split h
        · rw [hintact.decode, replacements_cons_self]
          exact List.cons_prefix_cons.mpr ⟨rfl, ih hlater⟩
        · obtain ⟨count, hdecode⟩ := hsplit.decode
          rw [hdecode, replacements_cons_self]
          exact List.cons_prefix_cons.mpr
            ⟨rfl, replacements_prefix_replicate (count + 1) (ih hlater)⟩
      · rw [replacements_cons_of_ne hc]
        exact List.nil_prefix

/-- One more of them is read when the first character is split. -/
theorem Split.replacements_prefix {later : List (List UInt8)} (h : Split c chunks later)
    (hlater : later.flatten = encode text) :
    replacement :: replacements (c :: text) <+: decodeChunks chunks := by
  obtain ⟨count, hdecode⟩ := h.decode
  rw [hdecode]
  refine List.cons_prefix_cons.mpr ⟨rfl, ?_⟩
  by_cases hc : c = replacement
  · rw [hc, replacements_cons_self]
    exact List.cons_prefix_cons.mpr
      ⟨rfl, replacements_prefix_replicate count (Utf8.replacements_prefix hlater)⟩
  · rw [replacements_cons_of_ne hc]
    exact List.nil_prefix

/-! ## The first bytes of a text in chunks -/

/-- Behind the replacement characters at the start of the text no other one fits into the room, and
neither does the next character of the text. -/
def NoMoreFits (room used : ℕ) (text : List Char) : Prop :=
  room < used + len (replacements text) + replacement.utf8Size ∧
    ∀ d ∈ (afterReplacements text).head?, room < used + len (replacements text) + d.utf8Size

/-- Every character that a chunk ends inside of is so far back that one sees nothing of it. -/
def SplitsHidden (room : ℕ) (text : List Char) (chunks : List (List UInt8)) : Prop :=
  ∀ lead c rest offset, text = lead ++ c :: rest → IsCut chunks offset → len lead < offset →
    offset < len lead + c.utf8Size → NoMoreFits room (len lead) (c :: rest)

variable {room used : ℕ}

/-- Where the room is used up nothing fits. -/
theorem noMoreFits_of_lt (h : room < used) : NoMoreFits room used text :=
  ⟨by omega, fun d _ => by omega⟩

/-- Room that is used up counts as less room. -/
theorem noMoreFits_add_iff {size : ℕ} (h : size ≤ room) :
    NoMoreFits room (size + used) text ↔ NoMoreFits (room - size) used text := by
  have hshift (more : ℕ) : room < size + used + len (replacements text) + more ↔
      room - size < used + len (replacements text) + more := by omega
  rw [NoMoreFits, NoMoreFits, hshift]
  exact and_congr_right fun _ => forall₂_congr fun d _ => hshift d.utf8Size

/-- A replacement character uses room. -/
theorem noMoreFits_cons_replacement_iff :
    NoMoreFits room used (replacement :: text) ↔
      NoMoreFits room (used + replacement.utf8Size) text := by
  rw [NoMoreFits, NoMoreFits, replacements_cons_self, afterReplacements_cons_self, len_cons,
    ← Nat.add_assoc]

/-- Nothing fits when neither the character nor its replacement does. -/
theorem noMoreFits_cons_iff (h : c ≠ replacement) :
    NoMoreFits room used (c :: text) ↔
      room < used + replacement.utf8Size ∧ room < used + c.utf8Size := by
  rw [NoMoreFits, replacements_cons_of_ne h, afterReplacements_cons_of_ne h]
  simp

/-- What is not seen from a place is not seen from a later one. -/
theorem NoMoreFits.step (h : NoMoreFits room used (c :: text)) :
    NoMoreFits room (used + c.utf8Size) text := by
  by_cases hc : c = replacement
  · subst hc
    exact noMoreFits_cons_replacement_iff.mp h
  · exact noMoreFits_of_lt ((noMoreFits_cons_iff hc).mp h).2

/-- Behind a front that takes room, nothing fits. -/
theorem NoMoreFits.append {lead : List Char} (h : NoMoreFits room used (lead ++ text)) :
    NoMoreFits room (used + len lead) text := by
  induction lead generalizing used with
  | nil => exact h
  | cons c lead ih =>
      rw [len_cons, ← Nat.add_assoc]
      exact ih h.step

/-- A first character that does not fit is cut, with all that follows. -/
theorem truncateAtCharBoundary_cons_of_lt (h : room < c.utf8Size) :
    truncateAtCharBoundary room (c :: text) = [] :=
  if_neg (Nat.not_le_of_lt h)

/-- A first character that fits is kept. -/
theorem truncateAtCharBoundary_cons_of_le (h : c.utf8Size ≤ room) :
    truncateAtCharBoundary room (c :: text) =
      c :: truncateAtCharBoundary (room - c.utf8Size) text :=
  if_pos h

/-- A further replacement character is seen, unless nothing more fits. -/
theorem truncate_eq_iff_noMoreFits {other : List Char}
    (h : replacement :: replacements text <+: other) :
    truncateAtCharBoundary room other = truncateAtCharBoundary room text ↔
      NoMoreFits room 0 text := by
  obtain ⟨rest, rfl⟩ := h
  induction text generalizing room rest with
  | nil =>
      have hfits : NoMoreFits room 0 [] ↔ room < replacement.utf8Size := by
        simp [NoMoreFits, afterReplacements]
      rw [hfits, truncateAtCharBoundary, List.cons_append, truncateAtCharBoundary]
      simp
  | cons c text ih =>
      by_cases hc : c = replacement
      · subst hc
        rw [replacements_cons_self, List.cons_append, noMoreFits_cons_replacement_iff]
        rcases Nat.lt_or_ge room replacement.utf8Size with hlt | hle
        · rw [truncateAtCharBoundary_cons_of_lt hlt, truncateAtCharBoundary_cons_of_lt hlt]
          exact iff_of_true rfl (noMoreFits_of_lt (by omega))
        · rw [truncateAtCharBoundary_cons_of_le hle, truncateAtCharBoundary_cons_of_le hle,
            List.cons.injEq, eq_self, true_and, Nat.add_comm 0, noMoreFits_add_iff hle]
          exact ih rest
      · rw [replacements_cons_of_ne hc, noMoreFits_cons_iff hc, List.singleton_append,
          truncateAtCharBoundary, truncateAtCharBoundary, Nat.zero_add, Nat.zero_add]
        split_ifs with hfirst hsecond hthird
        · simp only [List.cons.injEq]
          exact iff_of_false (fun h => hc h.1.symm) (by omega)
        · exact iff_of_false (by simp) (by omega)
        · exact iff_of_false (by simp) (by omega)
        · exact iff_of_true rfl (by omega)

/-- Behind an intact character the cuts are those of the chunks that are left. -/
theorem Intact.splitsHidden_cons_iff {later : List (List UInt8)} (h : Intact c chunks later) :
    SplitsHidden room (c :: text) chunks ↔
      ∀ lead d rest offset, text = lead ++ d :: rest → IsCut later offset → len lead < offset →
        offset < len lead + d.utf8Size → NoMoreFits room (c.utf8Size + len lead) (d :: rest) := by
  constructor
  · intro hhidden lead d rest offset htext hcut hpos hend
    have hlater := hhidden (c :: lead) d rest (c.utf8Size + offset) (by rw [htext]; rfl)
      ((h.cuts offset (by omega)).mpr hcut)
    rw [len_cons] at hlater
    exact hlater (by omega) (by omega)
  · intro hhidden lead d rest offset htext hcut hpos hend
    cases lead with
    | nil =>
        obtain ⟨rfl, -⟩ := List.cons.inj htext
        rw [len_nil] at hpos hend
        exact absurd hcut (h.noCut offset hpos (by omega))
    | cons first lead =>
        obtain ⟨rfl, htail⟩ := List.cons.inj htext
        rw [len_cons] at hpos hend ⊢
        obtain ⟨offset, rfl⟩ := Nat.exists_eq_add_of_le (by omega : c.utf8Size ≤ offset)
        exact hhidden lead d rest offset htail ((h.cuts offset (by omega)).mp hcut) (by omega)
          (by omega)

/-- The first bytes of a text are those of the text in chunks exactly when the splits are hidden. -/
theorem truncate_decodeChunks_iff (h : chunks.flatten = encode text) :
    truncateAtCharBoundary room (decodeChunks chunks) = truncateAtCharBoundary room text ↔
      SplitsHidden room text chunks := by
  induction text generalizing room chunks with
  | nil =>
      have hnone : decodeChunks chunks = [] := by
        rw [encode_nil, List.flatten_eq_nil_iff] at h
        exact List.flatMap_eq_nil_iff.mpr fun chunk hchunk => by rw [h chunk hchunk]; rfl
      rw [hnone]
      exact iff_of_true rfl fun lead c rest offset htext => absurd htext (by simp)
  | cons c text ih =>
      obtain ⟨later, hlater, hintact | hsplit⟩ := intact_or_split h
      · rw [hintact.decode, hintact.splitsHidden_cons_iff]
        rcases Nat.lt_or_ge room c.utf8Size with hlt | hle
        · rw [truncateAtCharBoundary_cons_of_lt hlt, truncateAtCharBoundary_cons_of_lt hlt]
          exact iff_of_true rfl fun _ _ _ _ _ _ _ _ => noMoreFits_of_lt (by omega)
        · rw [truncateAtCharBoundary_cons_of_le hle, truncateAtCharBoundary_cons_of_le hle,
            List.cons.injEq, eq_self, true_and, ih hlater]
          simp only [noMoreFits_add_iff hle]
          rfl
      · rw [truncate_eq_iff_noMoreFits (hsplit.replacements_prefix hlater)]
        constructor
        · intro hfits lead d rest offset htext _ _ _
          rw [htext] at hfits
          have hlater := hfits.append
          rwa [Nat.zero_add] at hlater
        · intro hhidden
          obtain ⟨offset, hpos, hlt, hcut⟩ := hsplit.cut
          exact hhidden [] c text offset rfl hcut hpos (by rwa [len_nil, Nat.zero_add])

end Utf8
