import DomainStatus.Lib.RegexCrate
import DomainStatus.Lib.Text
import Mathlib.Data.List.Forall2

/-!
# The syntax of regular expressions

The documented grammar of the crate `regex` and what its patterns match: branches, sequences,
repetitions, groups and flags, and the characters that stand for themselves. Classes, assertions,
the insides of a parenthesis that opens a group and the blanks of the verbose mode are a parameter,
the `Lexicon`. Read `Sequence` first, and then `Sequence.tokens`: a pattern that begins with written
characters matches texts that begin with these.
-/

namespace RegexSyntax

open Text

/-- The flags that are set at a place in a pattern. -/
structure Flags where
  ignoreCase : Bool
  multiLine : Bool
  dotMatchesNewLine : Bool
  swapGreed : Bool
  unicode : Bool
  verbose : Bool
  crlf : Bool

/-- No flag is set. -/
def Flags.initial : Flags where
  ignoreCase := false
  multiLine := false
  dotMatchesNewLine := false
  swapGreed := false
  unicode := true
  verbose := false
  crlf := false

/-- How often a part is repeated. -/
structure Repetition where
  least : ℕ
  most : Option ℕ

/-- A regular expression. Sets have one character, and assertions see the text around a place. -/
inductive Node where
  | empty
  | set (chars : Char → Bool)
  | look (holds : List Char → List Char → Bool)
  | seq (first second : Node)
  | alt (first second : Node)
  | rep (body : Node) (times : Repetition)

/-! ## Meaning -/

/-- The number is within the bounds of the repetition. -/
def Repetition.Allows (times : Repetition) (count : ℕ) : Prop :=
  times.least ≤ count ∧ ∀ most ∈ times.most, count ≤ most

/-- Parts of a text that follow each other. -/
def Consecutive (P : List Char → List Char → List Char → Prop) :
    List Char → List (List Char) → List Char → Prop
  | _, [], _ => True
  | before, part :: parts, behind =>
      P before part (parts.flatten ++ behind) ∧ Consecutive P (before ++ part) parts behind

/-- The regular expression matches a part of a text, with what stands before and behind it. -/
def Spans : Node → List Char → List Char → List Char → Prop
  | .empty => fun _ mid _ => mid = []
  | .set chars => fun _ mid _ => ∃ c, mid = [c] ∧ chars c = true
  | .look holds => fun before mid behind => mid = [] ∧ holds before behind = true
  | .seq first second => fun before mid behind =>
      ∃ lead tail, mid = lead ++ tail ∧ Spans first before lead (tail ++ behind) ∧
        Spans second (before ++ lead) tail behind
  | .alt first second => fun before mid behind =>
      Spans first before mid behind ∨ Spans second before mid behind
  | .rep body times => fun before mid behind =>
      ∃ parts, mid = parts.flatten ∧ times.Allows parts.length ∧
        Consecutive (Spans body) before parts behind

/-- Some part of the text is matched. -/
def HasMatch (node : Node) (text : List Char) : Prop :=
  ∃ before mid behind, text = before ++ mid ++ behind ∧ Spans node before mid behind

/-- One of several branches. -/
def oneOf : List Node → Node
  | [] => .set fun _ => false
  | branch :: branches => .alt branch (oneOf branches)

/-- A part under the operators that follow it. -/
def repeated (node : Node) (operators : List Repetition) : Node :=
  operators.foldl .rep node

/-! ## Characters -/

/-- The character has a meaning of its own where a part can start, or ends a sequence. -/
def isSyntax (c : Char) : Bool :=
  ['\\', '.', '^', '$', '|', '(', ')', '[', '*', '+', '?', '\x7b'].contains c

/-- The character behind a backslash stands for itself. -/
def isEscapable (c : Char) : Bool :=
  c.toNat < 128 && !c.isAlphanum && c != '<' && c != '>'

/-- An ASCII character of words. -/
def isWordChar (c : Char) : Bool :=
  c.isAlphanum || c == '_'

/-- `\<`. -/
def startOfWord : Node :=
  .look fun before behind => !before.getLast?.any isWordChar && behind.head?.any isWordChar

/-- `\>`. -/
def endOfWord : Node :=
  .look fun before behind => before.getLast?.any isWordChar && !behind.head?.any isWordChar

/-! ## Repetition operators -/

/-- A decimal number of 32 bits, with blanks around it. -/
def IsDecimal (text : List Char) (n : ℕ) : Prop :=
  ∃ before digits behind, text = before ++ digits ++ behind ∧ Blank before ∧ Blank behind ∧
    digits ≠ [] ∧ (∀ c ∈ digits, c.isDigit = true) ∧ n = digitsValue digits ∧ n < 2 ^ 32

/-- A question mark behind an operator only changes which match is preferred. -/
def skipLazy : List Char → List Char
  | '?' :: rest => rest
  | rest => rest

/-- Reads one repetition operator. -/
inductive Operator : List Char → Repetition → List Char → Prop where
  | star (rest) : Operator ('*' :: rest) ⟨0, none⟩ (skipLazy rest)
  | plus (rest) : Operator ('+' :: rest) ⟨1, none⟩ (skipLazy rest)
  | question (rest) : Operator ('?' :: rest) ⟨0, some 1⟩ (skipLazy rest)
  | exactly (count n rest) :
      IsDecimal count n →
      Operator ('\x7b' :: (count ++ '\x7d' :: rest)) ⟨n, some n⟩ (skipLazy rest)
  | atLeast (count n rest) :
      IsDecimal count n →
      Operator ('\x7b' :: (count ++ ',' :: '\x7d' :: rest)) ⟨n, none⟩ (skipLazy rest)
  | between (low n high m rest) :
      IsDecimal low n → IsDecimal high m → n ≤ m →
      Operator ('\x7b' :: (low ++ ',' :: (high ++ '\x7d' :: rest))) ⟨n, some m⟩ (skipLazy rest)

/-! ## The grammar -/

/-- What an opening parenthesis starts: a group with its flags, or a change of the flags for the
rest of the group around it. -/
inductive Opening where
  | group (flags : Flags)
  | directive (flags : Flags)

/-- What the grammar leaves open. A function that reads gives what it read and the rest. -/
structure Lexicon where
  /-- A written character of the pattern matches a character of the text. -/
  literal : Flags → Char → Char → Bool
  /-- Reads a class, an assertion or a character that is written in another way. -/
  atom : Flags → List Char → Option (Node × List Char)
  /-- Reads what stands behind an opening parenthesis. -/
  opening : Flags → List Char → Option (Opening × List Char)
  /-- Reads a blank or a comment of the verbose mode. -/
  blank : List Char → Option (List Char)
  /-- Reads a repetition operator of the verbose mode. -/
  verboseOperator : List Char → Option (Repetition × List Char)
  literal_ascii : ∀ flags c d, c.toNat < 128 → d.toNat < 128 →
    literal flags c d = if flags.ignoreCase then c.toLower == d.toLower else c == d
  opening_ignoreCase : ∀ flags rest, opening flags ('?' :: 'i' :: ')' :: rest) =
    some (.directive { flags with ignoreCase := true }, rest)

/-- A class or an assertion starts here. -/
def startsAtom : List Char → Bool
  | '\\' :: c :: _ => c.isAlphanum
  | c :: _ => ['.', '^', '$', '['].contains c
  | [] => false

/-- Reads all operators behind a part. -/
inductive Operators (L : Lexicon) (flags : Flags) :
    List Char → List Repetition → List Char → Prop where
  | nil (rest) : Operators L flags rest [] rest
  | cons (input times rest operators last) :
      flags.verbose = false → Operator input times rest →
      Operators L flags rest operators last →
      Operators L flags input (times :: operators) last
  | verbose (input times rest operators last) :
      flags.verbose = true → L.verboseOperator input = some (times, rest) →
      Operators L flags rest operators last →
      Operators L flags input (times :: operators) last

mutual

/-- `Branches L flags input branches later rest` reads branches with bars between them, up to the
end of a group. The flags that are set in it stay set in the next branch. -/
inductive Branches (L : Lexicon) :
    Flags → List Char → List Node → Flags → List Char → Prop where
  | last (flags input node later rest) :
      Sequence L flags input node later rest → rest.head? ≠ some '|' →
      Branches L flags input [node] later rest
  | cons (flags input node between rest branches later last) :
      Sequence L flags input node between ('|' :: rest) →
      Branches L between rest branches later last →
      Branches L flags input (node :: branches) later last

/-- Reads the parts of one branch. -/
inductive Sequence (L : Lexicon) : Flags → List Char → Node → Flags → List Char → Prop where
  | done (flags input) :
      input = [] ∨ input.head? = some '|' ∨ input.head? = some ')' →
      Sequence L flags input .empty flags input
  | blank (flags input rest node later last) :
      flags.verbose = true → L.blank input = some rest →
      Sequence L flags rest node later last →
      Sequence L flags input node later last
  | directive (flags input between rest node later last) :
      L.opening flags input = some (.directive between, rest) →
      Sequence L between rest node later last →
      Sequence L flags ('(' :: input) node later last
  | part (flags input node middle operators rest more later last) :
      Atom L flags input node middle →
      Operators L flags middle operators rest →
      Sequence L flags rest more later last →
      Sequence L flags input (.seq (repeated node operators) more) later last

/-- Reads one part without its operators. -/
inductive Atom (L : Lexicon) : Flags → List Char → Node → List Char → Prop where
  | plain (flags c rest) :
      isSyntax c = false → (flags.verbose = true → L.blank (c :: rest) = none) →
      Atom L flags (c :: rest) (.set (L.literal flags c)) rest
  | escaped (flags c rest) :
      isEscapable c = true →
      Atom L flags ('\\' :: c :: rest) (.set (L.literal flags c)) rest
  | startOfWord (flags rest) : Atom L flags ('\\' :: '<' :: rest) startOfWord rest
  | endOfWord (flags rest) : Atom L flags ('\\' :: '>' :: rest) endOfWord rest
  | special (flags input node rest) :
      startsAtom input = true → L.atom flags input = some (node, rest) →
      Atom L flags input node rest
  | group (flags input inner text branches later rest) :
      L.opening flags input = some (.group inner, text) →
      Branches L inner text branches later (')' :: rest) →
      Atom L flags ('(' :: input) (oneOf branches) rest

end

/-- The branches of a whole pattern. -/
def Reads (L : Lexicon) (pattern : List Char) (branches : List Node) : Prop :=
  ∃ later, Branches L .initial pattern branches later []

/-! ## Written characters -/

/-- A character in a pattern, as it is or behind a backslash. -/
inductive Token where
  | plain (c : Char)
  | escaped (c : Char)
  deriving DecidableEq

namespace Token

/-- The character that a token stands for. -/
def char : Token → Char
  | plain c => c
  | escaped c => c

/-- How a token is written. -/
def source : Token → List Char
  | plain c => [c]
  | escaped c => ['\\', c]

/-- ASCII, and nothing that starts another part. -/
def IsWritten : Token → Prop
  | plain c => c.toNat < 128 ∧ (isSyntax c = false ∨ c = ')')
  | escaped c => c.toNat < 128 ∧ c.isAlphanum = false

instance : (token : Token) → Decidable token.IsWritten
  | plain c => inferInstanceAs (Decidable (c.toNat < 128 ∧ (isSyntax c = false ∨ c = ')')))
  | escaped c => inferInstanceAs (Decidable (c.toNat < 128 ∧ c.isAlphanum = false))

/-- The backslash makes it an assertion. -/
def IsAngle (token : Token) : Prop :=
  token = escaped '<' ∨ token = escaped '>'

instance (token : Token) : Decidable token.IsAngle :=
  inferInstanceAs (Decidable (_ ∨ _))

/-- What it means. -/
def node (L : Lexicon) (flags : Flags) (token : Token) : Node :=
  if token = escaped '<' then startOfWord
  else if token = escaped '>' then endOfWord
  else .set (L.literal flags token.char)

variable {L : Lexicon} {flags : Flags}

/-- Written tokens are of ASCII characters. -/
theorem IsWritten.toNat_lt {token : Token} (h : token.IsWritten) : token.char.toNat < 128 := by
  cases token with
  | plain c => exact h.1
  | escaped c => exact h.1

/-- A token that is no word boundary stands for its character. -/
theorem node_of_not_isAngle {token : Token} (h : ¬token.IsAngle) :
    token.node L flags = .set (L.literal flags token.char) := by
  obtain ⟨hstart, hend⟩ := not_or.mp h
  rw [node, if_neg hstart, if_neg hend]

end Token

/-- The pattern of written characters. -/
def source (tokens : List Token) : List Char :=
  tokens.flatMap Token.source

/-- What written characters mean, with what is read behind them. -/
def written (L : Lexicon) (flags : Flags) (tokens : List Token) (more : Node) : Node :=
  tokens.foldr (fun token more => .seq (token.node L flags) more) more

/-- A repetition operator starts here. -/
def startsOperator (input : List Char) : Bool :=
  input.head?.any fun c => ['*', '+', '?', '\x7b'].contains c

variable {L : Lexicon} {flags later : Flags} {input rest last text before mid behind : List Char}
  {node : Node} {operators : List Repetition}

/-- A repetition starts like one. -/
theorem Operator.startsOperator {times : Repetition} (h : Operator input times rest) :
    startsOperator input = true := by
  cases h <;> rfl

/-- Where no operator starts none is read. -/
theorem Operators.eq_nil (h : Operators L flags input operators rest)
    (hverbose : flags.verbose = false) (hinput : RegexSyntax.startsOperator input = false) :
    operators = [] ∧ rest = input := by
  cases h with
  | nil => exact ⟨rfl, rfl⟩
  | cons _ _ _ _ _ _ hoperator =>
      rw [hoperator.startsOperator] at hinput
      cases hinput
  | verbose _ _ _ _ _ hflag =>
      rw [hverbose] at hflag
      cases hflag

/-- The first character of a written one. -/
theorem exists_source_eq {token : Token} (h : token.IsWritten) (input : List Char) :
    ∃ c tail, token.source ++ input = c :: tail ∧ (isSyntax c = false ∨ c = ')' ∨ c = '\\') := by
  cases token with
  | escaped c => exact ⟨'\\', c :: input, rfl, Or.inr (Or.inr rfl)⟩
  | plain c =>
      obtain ⟨-, hsyntax | hparen⟩ := h
      · exact ⟨c, input, rfl, Or.inl hsyntax⟩
      · exact ⟨c, input, rfl, Or.inr (Or.inl hparen)⟩

/-- A plain character starts no repetition. -/
theorem startsOperator_cons_of_not_isSyntax {c : Char} (h : isSyntax c = false) :
    startsOperator (c :: input) = false := by
  show ['*', '+', '?', '\x7b'].contains c = false
  rw [isSyntax] at h
  simp at h ⊢
  tauto

/-- A plain character starts no special atom. -/
theorem startsAtom_cons_of_not_isSyntax {c : Char} (h : isSyntax c = false) :
    startsAtom (c :: input) = false := by
  unfold startsAtom
  split
  next heq =>
    rw [(List.cons.inj heq).1] at h
    cases h
  next heq =>
    rw [← (List.cons.inj heq).1]
    rw [isSyntax] at h
    simp at h ⊢
    tauto
  · rfl

/-- A written token starts no repetition. -/
theorem startsOperator_source {token : Token} (h : token.IsWritten) :
    startsOperator (token.source ++ input) = false := by
  obtain ⟨c, tail, hsource, hsyntax | rfl | rfl⟩ := exists_source_eq h input
  · rw [hsource, startsOperator_cons_of_not_isSyntax hsyntax]
  · rw [hsource]
    rfl
  · rw [hsource]
    rfl

/-- A part that starts with a written character is that character. -/
theorem Atom.token {token : Token} (h : Atom L flags (token.source ++ input) node rest)
    (htoken : token.IsWritten) : node = token.node L flags ∧ rest = input := by
  cases token with
  | plain c =>
      have hinput : (Token.plain c).source ++ input = c :: input := rfl
      rw [hinput] at h
      obtain ⟨-, hsyntax | rfl⟩ := htoken
      · cases h with
        | plain => exact ⟨rfl, rfl⟩
        | escaped => cases hsyntax
        | startOfWord => cases hsyntax
        | endOfWord => cases hsyntax
        | group => cases hsyntax
        | special _ _ _ _ hatom =>
            rw [startsAtom_cons_of_not_isSyntax hsyntax] at hatom
            cases hatom
      · cases h with
        | plain _ _ _ hplain => cases hplain
        | special _ _ _ _ hatom => cases hatom
  | escaped c =>
      have hinput : (Token.escaped c).source ++ input = '\\' :: c :: input := rfl
      rw [hinput] at h
      cases h with
      | plain _ _ _ hplain => cases hplain
      | startOfWord => exact ⟨rfl, rfl⟩
      | endOfWord => exact ⟨rfl, rfl⟩
      | escaped _ _ _ hescapable =>
          have hangle : ¬(Token.escaped c).IsAngle := by
            intro hangle
            rcases hangle with heq | heq <;> cases heq <;> cases hescapable
          rw [Token.node_of_not_isAngle hangle]
          exact ⟨rfl, rfl⟩
      | special _ _ _ _ hatom =>
          rw [startsAtom, htoken.2] at hatom
          cases hatom

/-- A sequence that starts with a written character reads it, and then its operators. -/
theorem Sequence.token {token : Token}
    (h : Sequence L flags (token.source ++ input) node later last) (htoken : token.IsWritten)
    (hverbose : flags.verbose = false) (hlast : last.head? ≠ some ')') :
    ∃ operators rest more, Operators L flags input operators rest ∧
      Sequence L flags rest more later last ∧
      node = .seq (repeated (token.node L flags) operators) more := by
  obtain ⟨c, tail, hsource, hc⟩ := exists_source_eq htoken input
  generalize hwhole : token.source ++ input = whole at h
  cases h with
  | blank _ _ _ _ _ _ hflag =>
      rw [hverbose] at hflag
      cases hflag
  | part _ _ node middle operators rest more _ _ hatom hoperators hmore =>
      rw [← hwhole] at hatom
      obtain ⟨rfl, rfl⟩ := hatom.token htoken
      exact ⟨operators, rest, more, hoperators, hmore, rfl⟩
  | directive =>
      obtain ⟨rfl, -⟩ := List.cons.inj (hsource.symm.trans hwhole)
      simp [isSyntax] at hc
  | done _ _ hdone =>
      rw [← hwhole, hsource] at hdone hlast
      rcases hdone with hnil | hbar | hparen
      · cases hnil
      · obtain rfl : c = '|' := Option.some.inj hbar
        simp [isSyntax] at hc
      · exact absurd hparen hlast

/-! ## Patterns that begin with written characters -/

/-- The characters of a text match written ones. -/
def Spells (L : Lexicon) (flags : Flags) (tokens : List Token) (text : List Char) : Prop :=
  List.Forall₂ (fun token d => L.literal flags token.char d = true) tokens text

/-- In ASCII the characters are the same up to case. -/
theorem spells_iff {tokens : List Token} (hcase : flags.ignoreCase = true)
    (htokens : ∀ token ∈ tokens, token.char.toNat < 128) (htext : isAscii text = true) :
    Spells L flags tokens text ↔
      text.map Char.toLower = (tokens.map Token.char).map Char.toLower := by
  induction tokens generalizing text with
  | nil =>
      rw [Spells, List.forall₂_nil_left_iff, List.map_nil, List.map_nil, List.map_eq_nil_iff]
  | cons token tokens ih =>
      rw [List.forall_mem_cons] at htokens
      cases text with
      | nil => exact iff_of_false (fun h => by cases h) (by simp)
      | cons d text =>
          rw [isAscii, List.all_cons, Bool.and_eq_true, decide_eq_true_eq] at htext
          rw [Spells, List.forall₂_cons, ← Spells, ih htokens.2 htext.2,
            L.literal_ascii flags _ _ htokens.1 htext.1, if_pos hcase, beq_iff_eq]
          simp only [List.map_cons, List.cons.injEq]
          exact and_congr_left fun _ => eq_comm

/-- A sequence that is written characters up to a place reads these, and goes on from there. -/
theorem Sequence.eq_written {tokens : List Token}
    (h : Sequence L flags (source tokens ++ input) node later last)
    (htokens : ∀ token ∈ tokens, token.IsWritten) (hverbose : flags.verbose = false)
    (hlast : last.head? ≠ some ')') (hinput : startsOperator input = false) :
    ∃ more, Sequence L flags input more later last ∧ node = written L flags tokens more := by
  induction tokens generalizing node with
  | nil => exact ⟨node, h, rfl⟩
  | cons token tokens ih =>
      rw [List.forall_mem_cons] at htokens
      rw [source, List.flatMap_cons, List.append_assoc, ← source] at h
      obtain ⟨operators, rest, after, hoperators, hafter, rfl⟩ :=
        h.token htokens.1 hverbose hlast
      have hnext : startsOperator (source tokens ++ input) = false := by
        cases tokens with
        | nil => exact hinput
        | cons next tokens =>
            rw [source, List.flatMap_cons, List.append_assoc]
            exact startsOperator_source (htokens.2 next List.mem_cons_self)
      obtain ⟨rfl, rfl⟩ := hoperators.eq_nil hverbose hnext
      obtain ⟨more, hmore, rfl⟩ := ih hafter htokens.2
      exact ⟨more, hmore, rfl⟩

/-- Without assertions, written characters match the texts that spell them. -/
theorem spans_written_iff {tokens : List Token} {more : Node}
    (hangle : ∀ token ∈ tokens, ¬token.IsAngle) :
    Spans (written L flags tokens more) before mid behind ↔ ∃ lead tail, mid = lead ++ tail ∧
      Spells L flags tokens lead ∧ Spans more (before ++ lead) tail behind := by
  induction tokens generalizing before mid with
  | nil =>
      constructor
      · intro hspans
        exact ⟨[], mid, rfl, .nil, by rwa [List.append_nil]⟩
      · intro hspans
        obtain ⟨lead, tail, rfl, hlead, hmore⟩ := hspans
        cases hlead
        rwa [List.append_nil] at hmore
  | cons token tokens ih =>
      rw [List.forall_mem_cons] at hangle
      have hcons : written L flags (token :: tokens) more =
          .seq (.set (L.literal flags token.char)) (written L flags tokens more) := by
        rw [written, List.foldr_cons, Token.node_of_not_isAngle hangle.1, ← written]
      rw [hcons]
      constructor
      · intro hseq
        obtain ⟨first, rest, rfl, ⟨d, rfl, hd⟩, hrest⟩ := hseq
        obtain ⟨lead, tail, rfl, hlead, htail⟩ := (ih hangle.2).mp hrest
        refine ⟨d :: lead, tail, rfl, .cons hd hlead, ?_⟩
        rwa [List.append_assoc] at htail
      · intro hlead
        obtain ⟨lead, tail, rfl, hlead, htail⟩ := hlead
        cases hlead with
        | @cons _ d _ lead hd hlead =>
            refine ⟨[d], lead ++ tail, rfl, ⟨d, rfl, hd⟩, (ih hangle.2).mpr ?_⟩
            refine ⟨lead, tail, rfl, hlead, ?_⟩
            rwa [List.append_assoc]

/-- A sequence that is written characters up to a place matches these, and goes on from there. -/
theorem Sequence.tokens {tokens : List Token}
    (h : Sequence L flags (source tokens ++ input) node later last)
    (htokens : ∀ token ∈ tokens, token.IsWritten) (hangle : ∀ token ∈ tokens, ¬token.IsAngle)
    (hverbose : flags.verbose = false) (hlast : last.head? ≠ some ')')
    (hinput : startsOperator input = false) :
    ∃ more, Sequence L flags input more later last ∧ ∀ before mid behind,
      Spans node before mid behind ↔ ∃ lead tail, mid = lead ++ tail ∧
        Spells L flags tokens lead ∧ Spans more (before ++ lead) tail behind := by
  obtain ⟨more, hmore, rfl⟩ := h.eq_written htokens hverbose hlast hinput
  exact ⟨more, hmore, fun _ _ _ => spans_written_iff hangle⟩

/-- Whatever operators stand at the start of the input, they leave no part out. -/
def IsRequired (L : Lexicon) (flags : Flags) (input : List Char) : Prop :=
  ∀ operators rest, Operators L flags input operators rest → ∀ times ∈ operators, times.least ≠ 0

/-- A part that is not left out starts where the part itself starts. -/
theorem exists_of_spans_repeated {P : Char → Prop}
    (hnode : ∀ before mid behind, Spans node before mid behind → ∃ d tail, mid = d :: tail ∧ P d)
    (hoperators : ∀ times ∈ operators, times.least ≠ 0)
    (hspans : Spans (repeated node operators) before mid behind) :
    ∃ d tail, mid = d :: tail ∧ P d := by
  induction operators generalizing node with
  | nil => exact hnode before mid behind hspans
  | cons times operators ih =>
      rw [List.forall_mem_cons] at hoperators
      refine ih (fun before mid behind hrep => ?_) hoperators.2 hspans
      obtain ⟨parts, rfl, hallows, hparts⟩ := hrep
      cases parts with
      | nil => exact absurd (Nat.le_zero.mp hallows.1) hoperators.1
      | cons part parts =>
          obtain ⟨d, tail, rfl, hd⟩ := hnode _ _ _ hparts.1
          exact ⟨d, tail ++ parts.flatten, rfl, hd⟩

/-- Matches of a sequence start with the characters that it is written to start with. -/
theorem Sequence.exists_spells {tokens : List Token}
    (h : Sequence L flags (source tokens ++ input) node later last)
    (htokens : ∀ token ∈ tokens, token.IsWritten) (hangle : ∀ token ∈ tokens, ¬token.IsAngle)
    (hverbose : flags.verbose = false) (hlast : last.head? ≠ some ')')
    (hrequired : IsRequired L flags input) (hspans : Spans node before mid behind) :
    ∃ lead, lead <+: mid ∧ Spells L flags tokens lead := by
  rcases List.eq_nil_or_concat tokens with rfl | ⟨tokens, token, rfl⟩
  · exact ⟨[], List.nil_prefix, .nil⟩
  · rw [List.concat_eq_append] at *
    rw [List.forall_mem_append, List.forall_mem_singleton] at htokens hangle
    rw [source, List.flatMap_append, List.flatMap_singleton, List.append_assoc, ← source] at h
    -- all but the last character have no operators behind them
    obtain ⟨more, hmore, hmatch⟩ := h.tokens htokens.1 hangle.1 hverbose hlast
      (startsOperator_source htokens.2)
    obtain ⟨lead, tail, rfl, hlead, htail⟩ := (hmatch _ _ _).mp hspans
    obtain ⟨operators, rest, after, hoperators, -, rfl⟩ := hmore.token htokens.2 hverbose hlast
    obtain ⟨first, second, rfl, hfirst, -⟩ := htail
    rw [Token.node_of_not_isAngle hangle.2] at hfirst
    have hset : ∀ before mid behind, Spans (.set (L.literal flags token.char)) before mid behind →
        ∃ d tail, mid = d :: tail ∧ L.literal flags token.char d = true := by
      intro before mid behind hset
      obtain ⟨d, rfl, hd⟩ := hset
      exact ⟨d, [], rfl, hd⟩
    obtain ⟨d, tail, rfl, hd⟩ :=
      exists_of_spans_repeated hset (hrequired operators rest hoperators) hfirst
    refine ⟨lead ++ [d], ⟨tail ++ second, by simp⟩, ?_⟩
    exact List.rel_append hlead (.cons hd .nil)

/-! ## Whole patterns -/

/-- The flags behind `(?i)` at the start of a pattern. -/
def Flags.caseless : Flags :=
  { Flags.initial with ignoreCase := true }

/-- Behind `(?i)` the rest of the sequence is read without regard to case. -/
theorem Sequence.ignoreCase
    (h : Sequence L flags ('(' :: '?' :: 'i' :: ')' :: input) node later last)
    (hverbose : flags.verbose = false) :
    Sequence L { flags with ignoreCase := true } input node later last := by
  cases h with
  | done _ _ hdone => simp at hdone
  | blank _ _ _ _ _ _ hflag =>
      rw [hverbose] at hflag
      cases hflag
  | directive _ _ _ _ _ _ _ hopening hrest =>
      rw [L.opening_ignoreCase, Option.some.injEq, Prod.mk.injEq, Opening.directive.injEq]
        at hopening
      obtain ⟨rfl, rfl⟩ := hopening
      exact hrest
  | part _ _ _ _ _ _ _ _ _ hatom =>
      cases hatom with
      | plain _ _ _ hplain => cases hplain
      | special _ _ _ _ hatom => cases hatom
      | group _ _ _ _ _ _ _ hopening =>
          rw [L.opening_ignoreCase, Option.some.injEq, Prod.mk.injEq] at hopening
          cases hopening.1

/-- A leading flag counts for all branches. -/
theorem Branches.ignoreCase {branches : List Node}
    (h : Branches L flags ('(' :: '?' :: 'i' :: ')' :: input) branches later last)
    (hverbose : flags.verbose = false) :
    Branches L { flags with ignoreCase := true } input branches later last := by
  cases h with
  | last _ _ _ _ _ hsequence hbar => exact .last _ _ _ _ _ (hsequence.ignoreCase hverbose) hbar
  | cons _ _ _ _ _ _ _ _ hsequence hbranches =>
      exact .cons _ _ _ _ _ _ _ _ (hsequence.ignoreCase hverbose) hbranches

/-- The first branch of a whole pattern. -/
theorem Branches.exists_head {branches : List Node} (h : Branches L flags input branches later []) :
    ∃ first others between rest, branches = first :: others ∧
      Sequence L flags input first between rest ∧ rest.head? ≠ some ')' := by
  cases h with
  | last _ _ node _ _ hsequence => exact ⟨node, [], later, [], rfl, hsequence, by simp⟩
  | cons _ _ node between rest branches _ _ hsequence =>
      exact ⟨node, branches, between, '|' :: rest, rfl, hsequence, by simp⟩

/-- Nothing is read at the end of a pattern. -/
theorem Sequence.nil (h : Sequence L flags [] node later last) (hverbose : flags.verbose = false) :
    node = .empty ∧ last = [] := by
  cases h with
  | done => exact ⟨rfl, rfl⟩
  | blank _ _ _ _ _ _ hflag =>
      rw [hverbose] at hflag
      cases hflag
  | part _ _ _ _ _ _ _ _ _ hatom =>
      cases hatom with
      | special _ _ _ _ hatom => cases hatom

/-- A pattern of written characters alone is one branch of these. -/
theorem Branches.eq_written {tokens : List Token} {branches : List Node}
    (h : Branches L flags (source tokens) branches later [])
    (htokens : ∀ token ∈ tokens, token.IsWritten) (hverbose : flags.verbose = false) :
    branches = [written L flags tokens .empty] := by
  have hbranch {node : Node} {between : Flags} {rest : List Char}
      (hsequence : Sequence L flags (source tokens) node between rest)
      (hrest : rest.head? ≠ some ')') : rest = [] ∧ node = written L flags tokens .empty := by
    rw [← List.append_nil (source tokens)] at hsequence
    obtain ⟨more, hmore, rfl⟩ := hsequence.eq_written htokens hverbose hrest rfl
    obtain ⟨rfl, rfl⟩ := hmore.nil hverbose
    exact ⟨rfl, rfl⟩
  cases h with
  | last _ _ node _ _ hsequence => rw [(hbranch hsequence (by simp)).2]
  | cons _ _ _ _ _ _ _ _ hsequence => cases (hbranch hsequence (by simp)).1

/-- A pattern of written characters alone matches these. -/
theorem Branches.tokens {tokens : List Token} {branches : List Node}
    (h : Branches L flags (source tokens) branches later [])
    (htokens : ∀ token ∈ tokens, token.IsWritten) (hangle : ∀ token ∈ tokens, ¬token.IsAngle)
    (hverbose : flags.verbose = false) :
    ∃ branch, branches = [branch] ∧ ∀ before mid behind,
      Spans branch before mid behind ↔ Spells L flags tokens mid := by
  refine ⟨_, h.eq_written htokens hverbose, fun before mid behind => ?_⟩
  rw [spans_written_iff hangle]
  constructor
  · intro h
    obtain ⟨lead, tail, rfl, hlead, rfl⟩ := h
    rwa [List.append_nil]
  · intro h
    exact ⟨mid, [], (List.append_nil mid).symm, h, rfl⟩

/-- The characters that mean something in a regex. -/
def metaCharacters : List Char :=
  ['\\', '.', '+', '*', '?', '(', ')', '|', '[', ']', '\x7b', '\x7d', '^', '$', '#', '&', '-', '~']

/-- `regex_syntax::is_meta_character`. -/
def isMeta (c : Char) : Bool :=
  metaCharacters.contains c

/-- How `regex::escape` writes a character. -/
def escapedToken (c : Char) : Token :=
  if isMeta c then .escaped c else .plain c

/-- Escaped ASCII characters are written tokens. -/
theorem isWritten_escapedToken {c : Char} (h : c.toNat < 128) : (escapedToken c).IsWritten := by
  rw [escapedToken]
  split
  case isTrue hmeta =>
    have hall : ∀ c ∈ metaCharacters, c.isAlphanum = false := by decide
    rw [isMeta, List.contains_iff_mem] at hmeta
    exact ⟨h, hall c hmeta⟩
  case isFalse hmeta =>
    refine ⟨h, Or.inl ?_⟩
    simp only [isMeta, metaCharacters, List.contains_iff_mem, List.mem_cons, List.not_mem_nil,
      or_false, not_or] at hmeta
    simp [isSyntax, hmeta]

/-- They are no word boundaries. -/
theorem not_isAngle_escapedToken (c : Char) : ¬(escapedToken c).IsAngle := by
  rw [escapedToken]
  split
  case isTrue hmeta =>
    intro hangle
    rcases hangle with heq | heq <;> cases heq <;> cases hmeta
  case isFalse => simp [Token.IsAngle]

/-- They stand for their characters. -/
theorem char_escapedToken (c : Char) : (escapedToken c).char = c := by
  rw [escapedToken]
  split <;> rfl

/-- The crate reads patterns by this grammar, and its matches are those of a branch. Texts are in
ASCII. -/
structure Documented (R : RegexCrate) (L : Lexicon) where
  branches : R.Regex → List Node
  reads : ∀ {pattern regex}, R.new pattern = some regex → Reads L pattern.toList (branches regex)
  isMatch_iff : ∀ {regex text}, isAscii text.toList = true →
    (R.isMatch regex text = true ↔ ∃ branch ∈ branches regex, HasMatch branch text.toList)
  escape_eq : ∀ text, R.escape text = String.ofList (source (text.toList.map escapedToken))

/-- A pattern that compiles without case is read with that flag. -/
theorem Documented.reads_caseless {R : RegexCrate} (crate : Documented R L) {pattern : String}
    {regex : R.Regex} (h : R.new ("(?i)" ++ pattern) = some regex) :
    ∃ later, Branches L .caseless pattern.toList (crate.branches regex) later [] := by
  obtain ⟨later, hbranches⟩ := crate.reads h
  rw [String.toList_append] at hbranches
  exact ⟨later, hbranches.ignoreCase rfl⟩

/-! ## An instance -/

/-- Points, the ends of a text and the flag `i` alone. -/
def Lexicon.plain : Lexicon where
  literal flags c d := if flags.ignoreCase then c.toLower == d.toLower else c == d
  atom flags
    | '.' :: rest => some (.set fun d => flags.dotMatchesNewLine || d != '\n', rest)
    | '^' :: rest => some (.look fun before _ => before.isEmpty, rest)
    | '$' :: rest => some (.look fun _ behind => behind.isEmpty, rest)
    | _ => none
  opening flags
    | '?' :: 'i' :: ')' :: rest => some (.directive { flags with ignoreCase := true }, rest)
    | _ => none
  blank _ := none
  verboseOperator _ := none
  literal_ascii _ _ _ _ _ := rfl
  opening_ignoreCase _ _ := rfl

/-- Characters as they are. -/
def plainTokens (chars : String) : List Token :=
  chars.toList.map Token.plain

/-- A written token is an atom. -/
theorem Atom.of_token {token : Token} (h : token.IsWritten) (hparen : token ≠ .plain ')')
    (hverbose : flags.verbose = false) :
    Atom L flags (token.source ++ input) (token.node L flags) input := by
  cases token with
  | plain c =>
      refine .plain _ _ _ (h.2.resolve_right fun heq => hparen (by rw [heq])) fun hflag => ?_
      rw [hverbose] at hflag
      cases hflag
  | escaped c =>
      by_cases hstart : c = '<'
      · subst hstart
        exact .startOfWord _ _
      by_cases hend : c = '>'
      · subst hend
        exact .endOfWord _ _
      have hangle : ¬(Token.escaped c).IsAngle := by simp [Token.IsAngle, hstart, hend]
      rw [Token.node_of_not_isAngle hangle]
      refine .escaped _ _ _ ?_
      simp [isEscapable, hstart, hend, h.1, h.2]

/-- Written tokens in front of a sequence are part of it. -/
theorem Sequence.written {tokens : List Token} {more : Node}
    (hmore : Sequence L flags rest more later last)
    (htokens : ∀ token ∈ tokens, token.IsWritten ∧ token ≠ .plain ')')
    (hverbose : flags.verbose = false) :
    Sequence L flags (source tokens ++ rest) (written L flags tokens more) later last := by
  induction tokens with
  | nil => exact hmore
  | cons token tokens ih =>
      rw [List.forall_mem_cons] at htokens
      rw [source, List.flatMap_cons, List.append_assoc]
      exact .part _ _ _ _ [] _ _ _ _ (.of_token htokens.1.1 htokens.1.2 hverbose) (.nil _)
        (ih htokens.2)

/-- A pattern of written characters behind `(?i)`. -/
theorem reads_written {pattern : String} {tokens : List Token}
    (hpattern : pattern.toList = source tokens)
    (htokens : ∀ token ∈ tokens, token.IsWritten ∧ token ≠ .plain ')') :
    Reads L ("(?i)" ++ pattern).toList [written L .caseless tokens .empty] := by
  have hdone : Sequence L .caseless [] .empty .caseless [] := .done _ _ (Or.inl rfl)
  have hsequence := hdone.written htokens rfl
  rw [List.append_nil, ← hpattern] at hsequence
  rw [String.toList_append]
  refine ⟨.caseless, .last _ _ _ _ _ ?_ (by decide)⟩
  exact .directive _ ('?' :: 'i' :: ')' :: pattern.toList) .caseless pattern.toList _ _ _
    (L.opening_ignoreCase _ _) hsequence

/-- Written tokens match what they spell. -/
theorem spans_written {tokens : List Token} {lead tail : List Char} {more : Node}
    (hangle : ∀ token ∈ tokens, ¬token.IsAngle) (h : Spells L flags tokens lead)
    (hmore : Spans more (before ++ lead) tail behind) :
    Spans (written L flags tokens more) before (lead ++ tail) behind :=
  (spans_written_iff hangle).mpr ⟨lead, tail, rfl, h, hmore⟩

/-! ## Assertions among written characters -/

/-- A written character is an assertion at an end of a word, or it is itself. -/
theorem Token.node_cases (token : Token) :
    (token.IsAngle ∧ (token.node L flags = startOfWord ∨ token.node L flags = endOfWord)) ∨
      ¬token.IsAngle ∧ token.node L flags = .set (L.literal flags token.char) := by
  by_cases hangle : token.IsAngle
  · refine Or.inl ⟨hangle, ?_⟩
    rcases hangle with rfl | rfl
    · exact Or.inl rfl
    · exact Or.inr rfl
  · exact Or.inr ⟨hangle, Token.node_of_not_isAngle hangle⟩

/-- Whether a word character stands before depends on the last character only. -/
theorem getLast_append_any {lead : List Char} {other : List Char}
    (h : before.getLast?.any isWordChar = other.getLast?.any isWordChar) :
    (before ++ lead).getLast?.any isWordChar = (other ++ lead).getLast?.any isWordChar := by
  rw [List.getLast?_append, List.getLast?_append]
  cases lead.getLast? with
  | none => exact h
  | some c => rfl

/-- Whether a word character follows depends on the next character only. -/
theorem head_append_any {tail : List Char} {other : List Char}
    (h : behind.head?.any isWordChar = other.head?.any isWordChar) :
    (tail ++ behind).head?.any isWordChar = (tail ++ other).head?.any isWordChar := by
  cases tail with
  | nil => exact h
  | cons c tail => rfl

/-- Of the text around a match only the words at its ends count. -/
theorem spans_written_congr {tokens : List Token} {front back : List Char}
    (hbefore : before.getLast?.any isWordChar = front.getLast?.any isWordChar)
    (hbehind : behind.head?.any isWordChar = back.head?.any isWordChar)
    (h : Spans (written L flags tokens .empty) before mid behind) :
    Spans (written L flags tokens .empty) front mid back := by
  induction tokens generalizing before front mid with
  | nil => exact h
  | cons token tokens ih =>
      obtain ⟨lead, tail, rfl, hlead, htail⟩ := h
      refine ⟨lead, tail, rfl, ?_, ih (getLast_append_any hbefore) htail⟩
      rcases token.node_cases with ⟨-, hnode | hnode⟩ | ⟨-, hnode⟩
      · rw [hnode] at hlead ⊢
        obtain ⟨rfl, hholds⟩ := hlead
        refine ⟨rfl, ?_⟩
        dsimp only at hholds ⊢
        rwa [hbefore, head_append_any hbehind] at hholds
      · rw [hnode] at hlead ⊢
        obtain ⟨rfl, hholds⟩ := hlead
        refine ⟨rfl, ?_⟩
        dsimp only at hholds ⊢
        rwa [hbefore, head_append_any hbehind] at hholds
      · rw [hnode] at hlead ⊢
        exact hlead

/-- A match has the characters that are no assertions. -/
theorem spells_of_spans_written {tokens : List Token}
    (h : Spans (written L flags tokens .empty) before mid behind) :
    Spells L flags (tokens.filter fun token => ¬token.IsAngle) mid := by
  induction tokens generalizing before mid with
  | nil =>
      obtain rfl : mid = [] := h
      exact .nil
  | cons token tokens ih =>
      obtain ⟨lead, tail, rfl, hlead, htail⟩ := h
      have hrest := ih htail
      rcases token.node_cases with ⟨hangle, hnode⟩ | ⟨hangle, hnode⟩
      · rw [List.filter_cons_of_neg (by simpa using hangle)]
        have hnil : lead = [] := by
          rcases hnode with hnode | hnode <;> rw [hnode] at hlead <;> exact hlead.1
        rwa [hnil, List.nil_append]
      · rw [List.filter_cons_of_pos (by simpa using hangle)]
        rw [hnode] at hlead
        obtain ⟨d, rfl, hd⟩ := hlead
        exact .cons hd hrest

open Classical in
/-- A crate that compiles one pattern. -/
noncomputable def crateOf (pattern : String) (branches : List Node) : RegexCrate where
  Regex := Unit
  escape text := String.ofList (source (text.toList.map escapedToken))
  new other := if other = pattern then some () else none
  isMatch _ text := decide (∃ branch ∈ branches, HasMatch branch text.toList)
  captures _ text :=
    if h : ∃ branch ∈ branches, HasMatch branch text.toList then
      some [some (String.ofList h.choose_spec.2.choose_spec.choose)]
    else none
  isMatch_eq _ text := by
    split
    case isTrue h => exact decide_eq_true h
    case isFalse h => exact decide_eq_false h

/-- The crate of a pattern compiles it. -/
theorem crateOf_new (pattern : String) (branches : List Node) :
    (crateOf pattern branches).new pattern = some () :=
  if_pos rfl

/-- The crate of a pattern finds what one of its branches matches. -/
theorem crateOf_isMatch {pattern : String} {branches : List Node} {regex : Unit} {text : String} :
    (crateOf pattern branches).isMatch regex text = true ↔
      ∃ branch ∈ branches, HasMatch branch text.toList := by
  classical
  exact decide_eq_true_iff

/-- It is as documented, when the pattern has these branches. -/
noncomputable def documented_crateOf {pattern : String} {branches : List Node}
    (h : Reads L pattern.toList branches) : Documented (crateOf pattern branches) L where
  branches _ := branches
  reads {other regex} hnew := by
    have hsame : other = pattern := by
      by_contra hne
      simp [crateOf, hne] at hnew
    rwa [hsame]
  isMatch_iff _ := crateOf_isMatch
  escape_eq _ := rfl

end RegexSyntax
