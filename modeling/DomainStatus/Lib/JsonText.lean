import DomainStatus.Lib.ByteOffsets

/-!
# JSON as text

The text that `serde_json::to_string_pretty` writes for values without floats and truth values, and
how long it is.
Read `pretty_append_inj` first: in front of anything that does not go on with a digit, the text
tells which value it was written for. By `len_escaped` a text grows by one byte for each character
with a short escape, and by five for each other control character.
-/

namespace JsonText

open Text

/-- What is written. The fields of an object keep their order. -/
inductive Doc where
  | null
  | integer (value : ℤ)
  | string (text : String)
  | array (elements : List Doc)
  | object (fields : List (String × Doc))

/-- The letter of a short escape. -/
def shortEscape (c : Char) : Option Char :=
  if c = '"' then some '"'
  else if c = '\\' then some '\\'
  else if c = Char.ofNat 8 then some 'b'
  else if c = '\t' then some 't'
  else if c = '\n' then some 'n'
  else if c = Char.ofNat 12 then some 'f'
  else if c = '\r' then some 'r'
  else none

/-- The character of a short escape. -/
def ofShortEscape (letter : Char) : Option Char :=
  if letter = '"' then some '"'
  else if letter = '\\' then some '\\'
  else if letter = 'b' then some (Char.ofNat 8)
  else if letter = 't' then some '\t'
  else if letter = 'n' then some '\n'
  else if letter = 'f' then some (Char.ofNat 12)
  else if letter = 'r' then some '\r'
  else none

/-- A character between quotes. The control characters without a short escape are written as a
number. -/
def escapeChar (c : Char) : List Char :=
  match shortEscape c with
  | some letter => ['\\', letter]
  | none =>
      if c.toNat < 32 then
        ['\\', 'u', '0', '0', Nat.digitChar (c.toNat / 16), Nat.digitChar (c.toNat % 16)]
      else [c]

/-- The text with its escapes. -/
def escaped (text : List Char) : List Char :=
  text.flatMap escapeChar

/-- A string with its quotes. -/
def quoted (text : String) : List Char :=
  '"' :: (escaped text.toList ++ ['"'])

/-- A whole number in decimal digits. -/
def numeral (value : ℤ) : List Char :=
  (if value < 0 then ['-'] else []) ++ (Nat.repr value.natAbs).toList

/-- A new line, indented by two spaces for each level. -/
def newline (depth : ℕ) : List Char :=
  '\n' :: List.replicate (2 * depth) ' '

/-- What stands in front of a part of a list or an object. -/
def opening (depth : ℕ) (first : Bool) : List Char :=
  (if first then [] else [',']) ++ newline (depth + 1)

/-- What stands behind the last part, if there is one. -/
def closing (depth : ℕ) (first : Bool) : List Char :=
  if first then [] else newline depth

mutual

/-- The text of a value at a level of indentation. -/
def pretty (depth : ℕ) : Doc → List Char
  | .null => "null".toList
  | .integer value => numeral value
  | .string text => quoted text
  | .array elements => '[' :: (prettyElements depth true elements ++ [']'])
  | .object fields => '\x7b' :: (prettyFields depth true fields ++ ['\x7d'])

/-- The elements of an array and the bracket behind them, each on a line of its own. -/
def prettyElements (depth : ℕ) (first : Bool) : List Doc → List Char
  | [] => closing depth first
  | element :: rest =>
      opening depth first ++ pretty (depth + 1) element ++ prettyElements depth false rest

/-- The fields of an object and the brace behind them, each on a line of its own. -/
def prettyFields (depth : ℕ) (first : Bool) : List (String × Doc) → List Char
  | [] => closing depth first
  | (key, value) :: rest =>
      opening depth first ++ quoted key ++ [':', ' '] ++ pretty (depth + 1) value ++
        prettyFields depth false rest

end

example : pretty 0 (.object [("a", .array [.integer (-1), .string "\"\n"]), ("b", .array [])]) =
    "\x7b\n  \"a\": [\n    -1,\n    \"\\\"\\n\"\n  ],\n  \"b\": []\n\x7d".toList := rfl

/-! ## Reading one character -/

/-- The value of a hexadecimal digit. -/
def hexValue (digit : Char) : ℕ :=
  if digit.isDigit then digit.toNat - '0'.toNat else digit.toNat - 'a'.toNat + 10

/-- What an escape stands for behind its backslash, and what is left. -/
def unescapeTail : List Char → Option (Char × List Char)
  | [] => none
  | letter :: rest =>
      if letter = 'u' then
        match rest with
        | _ :: _ :: high :: low :: rest =>
            some (Char.ofNat (16 * hexValue high + hexValue low), rest)
        | _ => none
      else (ofShortEscape letter).map fun c => (c, rest)

/-- The character that an escaped text starts with, and what is left. -/
def unescape : List Char → Option (Char × List Char)
  | [] => none
  | c :: rest =>
      if c = '"' then none
      else if c = '\\' then unescapeTail rest
      else some (c, rest)

/-- A digit stands for its value. -/
theorem hexValue_digitChar {digit : ℕ} (h : digit < 16) :
    hexValue (Nat.digitChar digit) = digit := by
  have hall : ∀ n < 16, hexValue (Nat.digitChar n) = n := by decide
  exact hall digit h

/-- The letter of a short escape tells its character. -/
theorem shortEscape_eq_some {c letter : Char} (h : shortEscape c = some letter) :
    letter ≠ 'u' ∧ ofShortEscape letter = some c := by
  unfold shortEscape at h
  split_ifs at h <;> cases h <;> subst c <;> decide

/-- Quotes and backslashes have short escapes. -/
theorem shortEscape_eq_none {c : Char} (h : shortEscape c = none) : c ≠ '"' ∧ c ≠ '\\' := by
  refine ⟨?_, ?_⟩ <;> rintro rfl <;> exact absurd h (by decide)

/-- An escaped character is read back. -/
theorem unescape_escapeChar (c : Char) (rest : List Char) :
    unescape (escapeChar c ++ rest) = some (c, rest) := by
  unfold escapeChar
  cases hletter : shortEscape c with
  | some letter =>
      obtain ⟨hne, hback⟩ := shortEscape_eq_some hletter
      show (if letter = 'u' then _ else (ofShortEscape letter).map fun c => (c, rest)) = _
      rw [if_neg hne, hback]
      rfl
  | none =>
      dsimp only
      obtain ⟨hquote, hbackslash⟩ := shortEscape_eq_none hletter
      split
      · show some (Char.ofNat (16 * hexValue (Nat.digitChar (c.toNat / 16)) +
          hexValue (Nat.digitChar (c.toNat % 16))), rest) = some (c, rest)
        rw [hexValue_digitChar (by omega), hexValue_digitChar (by omega), Nat.div_add_mod,
          Char.ofNat_toNat]
      · show (if c = '"' then none else if c = '\\' then _ else some (c, rest)) = some (c, rest)
        rw [if_neg hquote, if_neg hbackslash]

/-- An escaped text is read back character by character. -/
theorem unescape_escaped_cons (c : Char) (text x : List Char) :
    unescape (escaped (c :: text) ++ x) = some (c, escaped text ++ x) := by
  rw [escaped, List.flatMap_cons, List.append_assoc, unescape_escapeChar, escaped]

/-- A quoted text ends at its own quote. -/
theorem escaped_append_inj {text other x y : List Char}
    (h : escaped text ++ '"' :: x = escaped other ++ '"' :: y) : text = other ∧ x = y := by
  have hread := congrArg unescape h
  induction text generalizing other with
  | nil =>
      cases other with
      | nil => exact ⟨rfl, (List.cons.inj h).2⟩
      | cons d rest =>
          rw [unescape_escaped_cons] at hread
          cases hread
  | cons c text ih =>
      cases other with
      | nil =>
          rw [unescape_escaped_cons] at hread
          cases hread
      | cons d rest =>
          rw [unescape_escaped_cons, unescape_escaped_cons] at hread
          obtain ⟨rfl, htail⟩ := Prod.mk.inj (Option.some.inj hread)
          obtain ⟨rfl, hxy⟩ := ih htail (congrArg unescape htail)
          exact ⟨rfl, hxy⟩

/-- A string in front of anything tells its text. -/
theorem quoted_append_inj {text other : String} {x y : List Char}
    (h : quoted text ++ x = quoted other ++ y) : text = other ∧ x = y := by
  have htail : escaped text.toList ++ '"' :: x = escaped other.toList ++ '"' :: y := by
    simpa [quoted] using h
  obtain ⟨htext, hxy⟩ := escaped_append_inj htail
  exact ⟨String.toList_inj.mp htext, hxy⟩

/-! ## Numbers in front of other text -/

/-- The text does not go on with a digit. -/
def Stops (text : List Char) : Prop :=
  ∀ c ∈ text.head?, c.isDigit = false

/-- The digits of a number stop where it stops. -/
theorem takeWhile_digits {number : ℕ} {rest : List Char} (h : Stops rest) :
    ((Nat.repr number).toList ++ rest).takeWhile Char.isDigit = (Nat.repr number).toList := by
  rw [List.takeWhile_append_of_pos fun c hc => isDigit_of_mem_repr hc]
  cases rest with
  | nil => simp
  | cons c rest => rw [List.takeWhile_cons_of_neg (by simp [h c rfl]), List.append_nil]

/-- A number in front of what is no digit tells its value. -/
theorem repr_append_inj {number other : ℕ} {x y : List Char} (hx : Stops x) (hy : Stops y)
    (h : (Nat.repr number).toList ++ x = (Nat.repr other).toList ++ y) :
    number = other ∧ x = y := by
  have hdigits := congrArg (List.takeWhile Char.isDigit) h
  rw [takeWhile_digits hx, takeWhile_digits hy] at hdigits
  rw [hdigits] at h
  exact ⟨repr_injective hdigits, List.append_cancel_left h⟩

/-- A number starts with a digit. -/
theorem exists_repr_eq_cons (number : ℕ) :
    ∃ c rest, (Nat.repr number).toList = c :: rest ∧ c.isDigit = true := by
  obtain ⟨c, rest, h⟩ := List.exists_cons_of_ne_nil (repr_ne_nil number)
  have hmem : c ∈ (Nat.repr number).toList := by
    rw [h]
    exact List.mem_cons_self
  exact ⟨c, rest, h, isDigit_of_mem_repr hmem⟩

/-- The sign of a number is its first character. -/
theorem numeral_append_inj {value other : ℤ} {x y : List Char} (hx : Stops x) (hy : Stops y)
    (h : numeral value ++ x = numeral other ++ y) : value = other ∧ x = y := by
  obtain ⟨c, digits, hdigits, hc⟩ := exists_repr_eq_cons value.natAbs
  obtain ⟨d, others, hothers, hd⟩ := exists_repr_eq_cons other.natAbs
  unfold numeral at h
  by_cases hvalue : value < 0 <;> by_cases hother : other < 0
  · rw [if_pos hvalue, if_pos hother, List.append_assoc, List.append_assoc] at h
    obtain ⟨habs, hxy⟩ := repr_append_inj hx hy (List.append_cancel_left h)
    exact ⟨by omega, hxy⟩
  · rw [if_pos hvalue, if_neg hother, hothers] at h
    rw [← (List.cons.inj h).1] at hd
    exact absurd hd (by decide)
  · rw [if_neg hvalue, if_pos hother, hdigits] at h
    rw [(List.cons.inj h).1] at hc
    exact absurd hc (by decide)
  · rw [if_neg hvalue, if_neg hother] at h
    obtain ⟨habs, hxy⟩ := repr_append_inj hx hy h
    exact ⟨by omega, hxy⟩

/-! ## Values in front of other text -/

/-- The first character of the text of a value, unless it is a number. -/
def Doc.lead? : Doc → Option Char
  | null => some 'n'
  | integer _ => none
  | string _ => some '"'
  | array _ => some '['
  | object _ => some '\x7b'

/-- The character itself, unless a number may start with it. -/
def nonNumeric (c : Char) : Option Char :=
  if c.isDigit ∨ c = '-' then none else some c

/-- The first character of a value tells its kind. -/
theorem exists_pretty_eq_cons (depth : ℕ) (value : Doc) :
    ∃ c rest, pretty depth value = c :: rest ∧ nonNumeric c = value.lead? := by
  cases value with
  | null => exact ⟨'n', _, rfl, rfl⟩
  | integer value =>
      obtain ⟨c, digits, hdigits, hc⟩ := exists_repr_eq_cons value.natAbs
      by_cases hneg : value < 0
      · exact ⟨'-', _, by rw [pretty, numeral, if_pos hneg]; rfl, rfl⟩
      · exact ⟨c, digits, by rw [pretty, numeral, if_neg hneg, hdigits]; rfl,
          if_pos (Or.inl hc)⟩
  | string text => exact ⟨'"', _, by rw [pretty, quoted], rfl⟩
  | array elements => exact ⟨'[', _, by rw [pretty], rfl⟩
  | object fields => exact ⟨'\x7b', _, by rw [pretty], rfl⟩

/-- Values that start alike are of one kind. -/
theorem lead_eq_of_pretty_append {depth : ℕ} {value other : Doc} {x y : List Char}
    (h : pretty depth value ++ x = pretty depth other ++ y) : value.lead? = other.lead? := by
  obtain ⟨c, rest, hvalue, hc⟩ := exists_pretty_eq_cons depth value
  obtain ⟨d, tail, hother, hd⟩ := exists_pretty_eq_cons depth other
  rw [hvalue, hother] at h
  rw [← hc, ← hd, (List.cons.inj h).1]

/-- A part of a list or an object is not followed by a digit. -/
theorem stops_prettyElements (depth : ℕ) (elements : List Doc) (x : List Char) :
    Stops (prettyElements depth false elements ++ x) := by
  cases elements with
  | nil => exact fun c hc => by cases hc; decide
  | cons element rest => exact fun c hc => by cases hc; decide

/-- No digit follows the value of a field. -/
theorem stops_prettyFields (depth : ℕ) (fields : List (String × Doc)) (x : List Char) :
    Stops (prettyFields depth false fields ++ x) := by
  cases fields with
  | nil => exact fun c hc => by cases hc; decide
  | cons field rest => exact fun c hc => by cases hc; decide

/-- A list or an object ends where no part of it goes on. -/
theorem closing_ne_opening (depth : ℕ) (first : Bool) {c : Char} (hc : c ≠ '\n')
    (x y : List Char) : closing depth first ++ c :: x ≠ opening depth first ++ y := by
  intro h
  cases first with
  | true => exact hc (List.cons.inj h).1
  | false => exact absurd (List.cons.inj h).1 (by decide)

mutual

/-- The text of a value ends before anything but a digit, and is written for this value only. -/
theorem pretty_append_inj (depth : ℕ) : ∀ (value other : Doc) {x y : List Char}, Stops x → Stops y →
    pretty depth value ++ x = pretty depth other ++ y → value = other ∧ x = y := by
  intro value other x y hx hy h
  have hlead := lead_eq_of_pretty_append h
  cases value with
  | null =>
      cases other with
      | null => exact ⟨rfl, List.append_cancel_left h⟩
      | _ => cases hlead
  | integer value =>
      cases other with
      | integer other =>
          obtain ⟨rfl, hxy⟩ := numeral_append_inj hx hy h
          exact ⟨rfl, hxy⟩
      | _ => cases hlead
  | string text =>
      cases other with
      | string other =>
          obtain ⟨rfl, hxy⟩ := quoted_append_inj h
          exact ⟨rfl, hxy⟩
      | _ => cases hlead
  | array elements =>
      cases other with
      | array others =>
          have htail : prettyElements depth true elements ++ ']' :: x =
              prettyElements depth true others ++ ']' :: y := by
            simpa [pretty] using h
          obtain ⟨rfl, hxy⟩ := prettyElements_append_inj depth true elements others htail
          exact ⟨rfl, hxy⟩
      | _ => cases hlead
  | object fields =>
      cases other with
      | object others =>
          have htail : prettyFields depth true fields ++ '\x7d' :: x =
              prettyFields depth true others ++ '\x7d' :: y := by
            simpa [pretty] using h
          obtain ⟨rfl, hxy⟩ := prettyFields_append_inj depth true fields others htail
          exact ⟨rfl, hxy⟩
      | _ => cases hlead

/-- The text of an array tells its elements. -/
theorem prettyElements_append_inj (depth : ℕ) (first : Bool) : ∀ (elements others : List Doc)
    {x y : List Char}, prettyElements depth first elements ++ ']' :: x =
      prettyElements depth first others ++ ']' :: y → elements = others ∧ x = y := by
  intro elements others x y h
  match elements, others with
  | [], [] =>
      exact ⟨rfl, (List.cons.inj (List.append_cancel_left h)).2⟩
  | [], other :: others =>
      rw [prettyElements, prettyElements, List.append_assoc, List.append_assoc] at h
      exact absurd h (closing_ne_opening depth first (by decide) _ _)
  | element :: elements, [] =>
      rw [prettyElements, prettyElements, List.append_assoc, List.append_assoc] at h
      exact absurd h.symm (closing_ne_opening depth first (by decide) _ _)
  | element :: elements, other :: others =>
      simp only [prettyElements, List.append_assoc] at h
      obtain ⟨rfl, htail⟩ := pretty_append_inj (depth + 1) element other
        (stops_prettyElements depth elements _) (stops_prettyElements depth others _)
        (List.append_cancel_left h)
      obtain ⟨rfl, hxy⟩ := prettyElements_append_inj depth false elements others htail
      exact ⟨rfl, hxy⟩

/-- The text of an object tells its fields. -/
theorem prettyFields_append_inj (depth : ℕ) (first : Bool) : ∀ (fields others : List (String × Doc))
    {x y : List Char}, prettyFields depth first fields ++ '\x7d' :: x =
      prettyFields depth first others ++ '\x7d' :: y → fields = others ∧ x = y := by
  intro fields others x y h
  match fields, others with
  | [], [] =>
      exact ⟨rfl, (List.cons.inj (List.append_cancel_left h)).2⟩
  | [], (name, other) :: others =>
      simp only [prettyFields, List.append_assoc] at h
      exact absurd h (closing_ne_opening depth first (by decide) _ _)
  | (key, value) :: fields, [] =>
      simp only [prettyFields, List.append_assoc] at h
      exact absurd h.symm (closing_ne_opening depth first (by decide) _ _)
  | (key, value) :: fields, (name, other) :: others =>
      simp only [prettyFields, List.append_assoc] at h
      obtain ⟨rfl, htail⟩ := quoted_append_inj (List.append_cancel_left h)
      obtain ⟨rfl, hrest⟩ := pretty_append_inj (depth + 1) value other
        (stops_prettyFields depth fields _) (stops_prettyFields depth others _)
        (List.append_cancel_left htail)
      obtain ⟨rfl, hxy⟩ := prettyFields_append_inj depth false fields others hrest
      exact ⟨rfl, hxy⟩

end

/-- A text is written for one value only. -/
theorem pretty_injective (depth : ℕ) : Function.Injective (pretty depth) := by
  intro value other h
  have hstops : Stops [] := fun c hc => by cases hc
  exact (pretty_append_inj depth value other hstops hstops (congrArg (· ++ []) h)).1

/-! ## Lengths -/

/-- A character that is escaped by a letter. -/
def hasShortEscape (c : Char) : Bool :=
  (shortEscape c).isSome

/-- A character that is escaped by its number. -/
def hasLongEscape (c : Char) : Bool :=
  (shortEscape c).isNone && decide (c.toNat < 32)

/-- Short escapes are for characters of one byte, and their letters have one byte. -/
theorem utf8Size_of_shortEscape {c letter : Char} (h : shortEscape c = some letter) :
    c.utf8Size = 1 ∧ letter.utf8Size = 1 := by
  unfold shortEscape at h
  split_ifs at h <;> cases h <;> subst c <;> decide

/-- A digit has one byte. -/
theorem utf8Size_digitChar {digit : ℕ} (h : digit < 16) : (Nat.digitChar digit).utf8Size = 1 := by
  have hall : ∀ n < 16, (Nat.digitChar n).utf8Size = 1 := by decide
  exact hall digit h

/-- A control character has one byte. -/
theorem utf8Size_of_toNat_lt {c : Char} (h : c.toNat < 32) : c.utf8Size = 1 := by
  have hall : ∀ n < 32, (Char.ofNat n).utf8Size = 1 := by decide
  rw [← Char.ofNat_toNat c]
  exact hall c.toNat h

/-- The bytes of an escaped character. -/
theorem len_escapeChar (c : Char) :
    len (escapeChar c) = c.utf8Size + (if hasShortEscape c then 1 else 0) +
      5 * (if hasLongEscape c then 1 else 0) := by
  unfold escapeChar hasShortEscape hasLongEscape
  split
  next letter hletter =>
    obtain ⟨hc, hsize⟩ := utf8Size_of_shortEscape hletter
    have hlen : len ['\\', letter] = 1 + len [letter] := rfl
    simp [hlen, hletter, hc, hsize]
  next hnone =>
    split
    case isTrue hcontrol =>
      have hhigh : (Nat.digitChar (c.toNat / 16)).utf8Size = 1 := utf8Size_digitChar (by omega)
      have hlow : (Nat.digitChar (c.toNat % 16)).utf8Size = 1 := utf8Size_digitChar (by omega)
      show 1 + (1 + (1 + (1 +
        len [Nat.digitChar (c.toNat / 16), Nat.digitChar (c.toNat % 16)]))) = _
      simp [hnone, hcontrol, utf8Size_of_toNat_lt hcontrol, hhigh, hlow]
    case isFalse hplain => simp [hnone, hplain]

/-- How long a text is between quotes. -/
theorem len_escaped (text : List Char) :
    len (escaped text) =
      len text + text.countP hasShortEscape + 5 * text.countP hasLongEscape := by
  induction text with
  | nil => rfl
  | cons c text ih =>
      rw [escaped, List.flatMap_cons, ← escaped, len_append, ih, len_escapeChar, len_cons,
        List.countP_cons, List.countP_cons]
      omega

@[simp] theorem len_quoted (text : String) : len (quoted text) = len (escaped text.toList) + 2 := by
  have hquote : len ['"'] = 1 := rfl
  rw [quoted, len_cons, len_append, hquote]
  show 1 + (len (escaped text.toList) + 1) = _
  omega

/-- The bytes of a line break with its indentation. -/
theorem len_newline (depth : ℕ) : len (newline depth) = 2 * depth + 1 := by
  have hspace : (' ' : Char).utf8Size = 1 := by decide
  have hbreak : ('\n' : Char).utf8Size = 1 := by decide
  rw [newline, len_cons, len_replicate, hspace, hbreak]
  omega

/-- The bytes in front of an element. -/
theorem len_opening (depth : ℕ) (first : Bool) :
    len (opening depth first) = (if first then 0 else 1) + (2 * depth + 3) := by
  have hcomma : len [','] = 1 := rfl
  rw [opening, len_append, len_newline]
  cases first
  · show len [','] + (2 * (depth + 1) + 1) = _
    rw [hcomma]
    rfl
  · rfl

/-- The bytes in front of a closing bracket. -/
theorem len_closing (depth : ℕ) (first : Bool) :
    len (closing depth first) = if first then 0 else 2 * depth + 1 := by
  cases first
  · exact len_newline depth
  · rfl

/-- The bytes of an object are those of its fields and its braces. -/
theorem len_pretty_object (depth : ℕ) (fields : List (String × Doc)) :
    len (pretty depth (.object fields)) = len (prettyFields depth true fields) + 2 := by
  have hbrace : len ['\x7d'] = 1 := rfl
  rw [pretty, len_cons, len_append, hbrace]
  show 1 + (len (prettyFields depth true fields) + 1) = _
  omega

/-- The bytes behind the last field. -/
theorem len_prettyFields_nil (depth : ℕ) (first : Bool) :
    len (prettyFields depth first []) = if first then 0 else 2 * depth + 1 := by
  rw [prettyFields, len_closing]

/-- A field takes its key with quotes, a colon and a blank besides its value. -/
theorem len_prettyFields_cons (depth : ℕ) (first : Bool) (key : String) (value : Doc)
    (rest : List (String × Doc)) :
    len (prettyFields depth first ((key, value) :: rest)) =
      len (opening depth first) + (len (escaped key.toList) + 4) + len (pretty (depth + 1) value) +
        len (prettyFields depth false rest) := by
  have hcolon : len [':', ' '] = 2 := rfl
  rw [prettyFields, len_append, len_append, len_append, len_append, len_quoted, hcolon]
  omega

end JsonText
