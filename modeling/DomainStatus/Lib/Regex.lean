import Mathlib.Data.List.Infix

/-!
# Backtracking search

Regular expressions without anchors, matched as the crate `regex` documents it: the search takes the
first place in the text with a match, and of the matches there the one that backtracking finds
first. `run` lists the matches at the start of a text in that order. Read `run_star_set_seq` and
`first_star_more` first: a repetition that has to be as long as it can, and one that is.
-/

/-- Regexes over characters, with greedy repetition and numbered groups. -/
inductive Regex
  | empty
  | set (p : Char → Bool)
  | seq (first second : Regex)
  | alt (first second : Regex)
  | star (body : Regex)
  | group (index : ℕ) (body : Regex)

namespace Regex

/-- A match of the start of a text: what the groups have matched, the last one first, and the text
behind the match. -/
structure Match where
  groups : List (ℕ × List Char)
  rest : List Char
  deriving DecidableEq

namespace Match

/-- The text of a group, if it took part in the match. -/
def group (m : Match) (index : ℕ) : Option (List Char) :=
  m.groups.lookup index

/-- A match and one of the text behind it. -/
def andThen (m next : Match) : Match :=
  ⟨next.groups ++ m.groups, next.rest⟩

/-- A later group replaces an earlier one with its number. -/
theorem group_andThen (m next : Match) (index : ℕ) :
    (m.andThen next).group index = (next.group index).or (m.group index) :=
  List.lookup_append

/-- Matches can be joined in any grouping. -/
theorem andThen_assoc (m next last : Match) :
    (m.andThen next).andThen last = m.andThen (next.andThen last) := by
  simp [andThen]

/-- A match and one behind it read the text that each of them reads. -/
theorem lead_andThen {text lead mid : List Char} {m next : Match} (htext : text = lead ++ m.rest)
    (hrest : m.rest = mid ++ next.rest) : text = lead ++ mid ++ (m.andThen next).rest := by
  rw [htext, hrest, List.append_assoc]
  rfl

/-- A match without groups adds nothing to those behind it. -/
theorem map_andThen_of_no_groups (rest : List Char) (list : List Match) :
    list.map (Match.andThen ⟨[], rest⟩) = list := by
  refine (List.map_congr_left fun m _ => ?_).trans (List.map_id list)
  simp [andThen]

end Match

/-- A greedy repetition. A round that reads nothing ends it. -/
@[grind =] def repeated (body : List Char → List Match) : ℕ → List Char → List Match
  | 0, text => [⟨[], text⟩]
  | fuel + 1, text =>
      ((body text).filter fun m => m.rest.length < text.length).flatMap
        (fun m => (repeated body fuel m.rest).map m.andThen) ++ [⟨[], text⟩]

/-- The matches of the start of a text, in the order in which backtracking finds them. -/
@[grind =] def run : Regex → List Char → List Match
  | empty, text => [⟨[], text⟩]
  | set _, [] => []
  | set p, c :: rest => if p c then [⟨[], rest⟩] else []
  | seq first second, text =>
      (run first text).flatMap fun m => (run second m.rest).map m.andThen
  | alt first second, text => run first text ++ run second text
  | star body, text => repeated (run body) text.length text
  | group index body, text =>
      (run body text).map fun m =>
        ⟨(index, text.take (text.length - m.rest.length)) :: m.groups, m.rest⟩

/-- A literal text. -/
def lit : List Char → Regex
  | [] => empty
  | c :: rest => seq (set (· == c)) (lit rest)

/-- The regex once or not at all, if possible once. -/
def opt (body : Regex) : Regex :=
  alt body empty

/-- The regex once or more often. -/
def plus (body : Regex) : Regex :=
  seq body (star body)

/-- One of the words. The first that matches is taken. -/
def oneOf : List (List Char) → Regex
  | [] => set fun _ => false
  | word :: words => alt (lit word) (oneOf words)

/-- `Regex::captures`: the match at the first place that has one. -/
def captures (regex : Regex) : List Char → Option Match
  | [] => (run regex []).head?
  | c :: rest => (run regex (c :: rest)).head?.or (captures regex rest)

/-- `Regex::captures_iter` from a place on. An empty match directly behind a match is passed
over. -/
@[grind =] def capturesFrom (regex : Regex) : ℕ → Bool → List Char → List Match
  | 0, _, _ => []
  | fuel + 1, adjacent, text =>
      let later := if text.isEmpty then [] else capturesFrom regex fuel false text.tail
      match (run regex text).head? with
      | some m =>
          if m.rest.length < text.length then m :: capturesFrom regex fuel true m.rest
          else if adjacent then later
          else m :: later
      | none => later

/-- The matches of a regex from left to right, each behind the one before it. -/
def capturesIter (regex : Regex) (text : List Char) : List Match :=
  capturesFrom regex (text.length + 1) false text

variable {regex body first second third : Regex} {p : Char → Bool} {text rest : List Char}
  {c : Char} {m next : Match} {words others : List (List Char)} {index : ℕ}

/-! ## Sequences -/

/-- Sequences can be read in any grouping. -/
theorem run_seq_assoc (text : List Char) :
    run (seq (seq first second) third) text = run (seq first (seq second third)) text := by
  simp only [run, List.flatMap_assoc, List.flatMap_map, List.map_flatMap, List.map_map]
  refine List.flatMap_congr fun m _ => List.flatMap_congr fun next _ => ?_
  exact List.map_congr_left fun last _ => Match.andThen_assoc m next last

/-- Without a first part there is no sequence. -/
theorem run_seq_eq_nil (h : run first text = []) : run (seq first second) text = [] := by
  rw [run, h, List.flatMap_nil]

/-- A character of the set is read. -/
theorem run_set_seq (hc : p c = true) :
    run (seq (set p) second) (c :: rest) = run second rest := by
  rw [run, run, if_pos hc, List.flatMap_singleton, Match.map_andThen_of_no_groups]

/-- Another character is not read. -/
theorem run_set_of_not (hc : p c = false) : run (set p) (c :: rest) = [] := by
  rw [run, hc, if_neg Bool.false_ne_true]

/-- The preferred match of a sequence, when the second part matches behind the preferred match of
the first. -/
theorem first_seq (h : (run first text).head? = some m)
    (hnext : (run second m.rest).head? = some next) :
    (run (seq first second) text).head? = some (m.andThen next) := by
  obtain ⟨others, hothers⟩ := List.head?_eq_some_iff.mp h
  obtain ⟨lasts, hlasts⟩ := List.head?_eq_some_iff.mp hnext
  rw [run, hothers, List.flatMap_cons, hlasts]
  rfl

/-- The preferred match of a sequence comes from one of its first part. -/
theorem exists_of_first_seq (h : (run (seq first second) text).head? = some m) :
    ∃ before ∈ run first text, ∃ next, (run second before.rest).head? = some next ∧
      m = before.andThen next := by
  rw [run, List.head?_flatMap, List.findSome?_eq_some_iff] at h
  obtain ⟨_, before, _, hmatches, hm, -⟩ := h
  rw [List.head?_map, Option.map_eq_some_iff] at hm
  obtain ⟨next, hnext, rfl⟩ := hm
  refine ⟨before, ?_, next, hnext, rfl⟩
  rw [hmatches]
  exact List.mem_append_right _ List.mem_cons_self

/-- An optional part is tried first and left out then. -/
theorem run_opt_seq (text : List Char) :
    run (seq (opt body) second) text = run (seq body second) text ++ run second text := by
  show (run body text ++ run empty text).flatMap _ = _
  rw [List.flatMap_append, run, run, List.flatMap_singleton, Match.map_andThen_of_no_groups]

/-- A group has the text that its body takes first. -/
theorem first_group (h : (run body text).head? = some m) :
    (run (group index body) text).head? =
      some ⟨(index, text.take (text.length - m.rest.length)) :: m.groups, m.rest⟩ := by
  rw [run, List.head?_map, h, Option.map_some]

/-- A group matches where its body does. -/
theorem run_group_eq_nil (h : run body text = []) : run (group index body) text = [] := by
  rw [run, h, List.map_nil]

/-! ## Repetitions -/

/-- At the end of the text a repetition has no further round. -/
theorem repeated_nil (rounds : List Char → List Match) (fuel : ℕ) :
    repeated rounds fuel [] = [⟨[], []⟩] := by
  cases fuel with
  | zero => rfl
  | succ fuel =>
      have hnone : ((rounds []).filter fun m => m.rest.length < ([] : List Char).length) = [] := by
        simp
      rw [repeated, hnone, List.flatMap_nil, List.nil_append]

/-- More rounds than characters make no difference. -/
theorem repeated_fuel (rounds : List Char → List Match) {fuel other : ℕ} {text : List Char}
    (h : text.length ≤ fuel) (hother : text.length ≤ other) :
    repeated rounds fuel text = repeated rounds other text := by
  induction fuel generalizing other text with
  | zero =>
      rw [List.eq_nil_of_length_eq_zero (Nat.le_zero.mp h), repeated_nil, repeated_nil]
  | succ fuel ih =>
      cases other with
      | zero =>
          rw [List.eq_nil_of_length_eq_zero (Nat.le_zero.mp hother), repeated_nil, repeated_nil]
      | succ other =>
          rw [repeated, repeated]
          refine congrArg (· ++ [(⟨[], text⟩ : Match)]) (List.flatMap_congr fun m hm => ?_)
          have hshorter := of_decide_eq_true (List.mem_filter.mp hm).2
          have hrest : repeated rounds fuel m.rest = repeated rounds other m.rest :=
            ih (by omega) (by omega)
          rw [hrest]

/-- A repetition goes on while the body takes something, and may always stop. -/
theorem run_star (body : Regex) (text : List Char) :
    run (star body) text =
      ((run body text).filter fun m => m.rest.length < text.length).flatMap
        (fun m => (run (star body) m.rest).map m.andThen) ++ [⟨[], text⟩] := by
  rw [run, repeated_fuel (run body) (Nat.le_refl _) (Nat.le_succ _), repeated]
  refine congrArg (· ++ [(⟨[], text⟩ : Match)]) (List.flatMap_congr fun m hm => ?_)
  have hshorter := of_decide_eq_true (List.mem_filter.mp hm).2
  rw [run, repeated_fuel (run body) (by omega) (Nat.le_refl _)]

/-- A repetition stops where the body does not match. -/
theorem first_star_stop (h : run body text = []) :
    (run (star body) text).head? = some ⟨[], text⟩ := by
  rw [run_star, h]
  rfl

/-- A repetition always matches. -/
theorem exists_first_star (body : Regex) (text : List Char) :
    ∃ m, (run (star body) text).head? = some m := by
  rw [run_star, ← Option.isSome_iff_exists, List.isSome_head?]
  simp

/-- A greedy repetition makes a round when it can. -/
theorem first_star_more (h : (run body text).head? = some m)
    (hshorter : m.rest.length < text.length) :
    (run (star body) text).head? = (run (star body) m.rest).head?.map m.andThen := by
  obtain ⟨others, hothers⟩ := List.head?_eq_some_iff.mp h
  obtain ⟨next, hnext⟩ := exists_first_star body m.rest
  obtain ⟨lasts, hlasts⟩ := List.head?_eq_some_iff.mp hnext
  rw [run_star, hothers, List.filter_cons, if_pos (decide_eq_true hshorter), List.flatMap_cons,
    hlasts]
  rfl

/-- A repetition of a set takes a character of the set. -/
theorem run_star_set_cons (hc : p c = true) :
    run (star (set p)) (c :: rest) = run (star (set p)) rest ++ [⟨[], c :: rest⟩] := by
  have hround : ((run (set p) (c :: rest)).filter fun m => m.rest.length < (c :: rest).length) =
      [⟨[], rest⟩] := by
    rw [run, if_pos hc]
    simp
  rw [run_star, hround, List.flatMap_singleton, Match.map_andThen_of_no_groups]

/-- A repetition of a set stops at another character. -/
theorem run_star_set_stop (hc : p c = false) :
    run (star (set p)) (c :: rest) = [⟨[], c :: rest⟩] := by
  rw [run_star, run_set_of_not hc]
  rfl

/-- What follows the repetition of a class and never starts in the class follows its longest
match. -/
theorem run_star_set_seq (h : ∀ c rest, p c = true → run second (c :: rest) = []) :
    run (seq (star (set p)) second) text = run second (text.dropWhile p) := by
  have hstop : ∀ text, run (seq empty second) text = run second text := fun text => by
    rw [run, run, List.flatMap_singleton, Match.map_andThen_of_no_groups]
  induction text with
  | nil => exact hstop []
  | cons c rest ih =>
      by_cases hc : p c = true
      · rw [List.dropWhile_cons_of_pos hc, ← ih, run, run_star_set_cons hc, List.flatMap_append,
          List.flatMap_singleton, h c rest hc, List.map_nil, List.append_nil, run]
      · rw [Bool.not_eq_true] at hc
        rw [List.dropWhile_cons_of_neg (by simp [hc]), run, run_star_set_stop hc]
        exact hstop (c :: rest)

/-- A repetition of a set takes all the characters of the set that follow. -/
theorem first_star_set (p : Char → Bool) (text : List Char) :
    (run (star (set p)) text).head? = some ⟨[], text.dropWhile p⟩ := by
  induction text with
  | nil => rfl
  | cons c rest ih =>
      by_cases hc : p c = true
      · rw [run_star_set_cons hc, List.head?_append, ih, List.dropWhile_cons_of_pos hc]
        rfl
      · rw [Bool.not_eq_true] at hc
        rw [run_star_set_stop hc, List.dropWhile_cons_of_neg (by simp [hc])]
        rfl

/-- A group around at least one character of a class. -/
theorem first_group_plus_set (index : ℕ) (p : Char → Bool) (text : List Char) :
    (run (group index (plus (set p))) text).head? =
      if text.takeWhile p = [] then none
      else some ⟨[(index, text.takeWhile p)], text.dropWhile p⟩ := by
  cases text with
  | nil => rfl
  | cons c rest =>
      by_cases hc : p c = true
      · have hplus : (run (plus (set p)) (c :: rest)).head? = some ⟨[], rest.dropWhile p⟩ := by
          rw [plus, run_set_seq hc, first_star_set]
        have hlength : (c :: rest).length - (rest.dropWhile p).length =
            (c :: rest.takeWhile p).length := by
          have hsplit := congrArg List.length (List.takeWhile_append_dropWhile (p := p) (l := rest))
          rw [List.length_append] at hsplit
          rw [List.length_cons, List.length_cons]
          omega
        have htake : (c :: rest).take (c :: rest.takeWhile p).length = c :: rest.takeWhile p := by
          rw [List.length_cons, List.take_succ_cons]
          exact congrArg _ (List.prefix_iff_eq_take.mp (List.takeWhile_prefix p)).symm
        rw [first_group hplus, hlength, htake, List.takeWhile_cons_of_pos hc,
          List.dropWhile_cons_of_pos hc, if_neg (List.cons_ne_nil _ _)]
      · rw [Bool.not_eq_true] at hc
        have hplus : run (plus (set p)) (c :: rest) = [] := run_seq_eq_nil (run_set_of_not hc)
        rw [List.takeWhile_cons_of_neg (by simp [hc]), if_pos rfl, run_group_eq_nil hplus]
        rfl

/-! ## Words -/

/-- The expression matches these words and has no groups. The words are in order of preference. -/
def Spells (regex : Regex) (words : List (List Char)) : Prop :=
  ∀ text, run regex text = (words.filterMap text.dropPrefix?).map (Match.mk [])

/-- A match of a spelled regex is one of its words. -/
theorem Spells.exists_word (h : Spells regex words) (hm : m ∈ run regex text) :
    ∃ word ∈ words, text = word ++ m.rest ∧ m.groups = [] := by
  rw [h text] at hm
  obtain ⟨rest, hrest, rfl⟩ := List.mem_map.mp hm
  obtain ⟨word, hword, hdrop⟩ := List.mem_filterMap.mp hrest
  obtain ⟨lead, htext, hlead⟩ := List.dropPrefix?_eq_some_iff.mp hdrop
  rw [eq_of_beq hlead] at htext
  exact ⟨word, hword, htext, rfl⟩

/-- A prefix of two parts is dropped part by part. -/
theorem dropPrefix_append (word other text : List Char) :
    text.dropPrefix? (word ++ other) =
      (text.dropPrefix? word).bind fun rest => rest.dropPrefix? other := by
  induction word generalizing text with
  | nil => rw [List.nil_append, List.dropPrefix?_nil, Option.bind_some]
  | cons d word ih =>
      cases text with
      | nil => rfl
      | cons c rest =>
          show (if c == d then rest.dropPrefix? (word ++ other) else none) =
            (if c == d then rest.dropPrefix? word else none).bind _
          split_ifs
          · exact ih rest
          · rfl

/-- Nothing spells the empty word. -/
theorem spells_empty : Spells empty [[]] := by
  intro text
  simp [run]

/-- A sequence spells the words of its parts, one behind the other. -/
theorem Spells.seq (h : Spells first words) (hsecond : Spells second others) :
    Spells (seq first second) (words.flatMap fun word => others.map (word ++ ·)) := by
  intro text
  rw [run, h text]
  clear h
  induction words with
  | nil => rfl
  | cons word words ih =>
      have hword : (others.map (word ++ ·)).filterMap text.dropPrefix? =
          (text.dropPrefix? word).elim [] fun rest => others.filterMap rest.dropPrefix? := by
        rw [List.filterMap_map]
        cases hdrop : text.dropPrefix? word with
        | none =>
            refine List.filterMap_eq_nil_iff.mpr fun other _ => ?_
            rw [Function.comp_apply, dropPrefix_append, hdrop, Option.bind_none]
        | some rest =>
            refine List.filterMap_congr fun other _ => ?_
            rw [Function.comp_apply, dropPrefix_append, hdrop, Option.bind_some]
      rw [List.flatMap_cons, List.filterMap_append, hword, List.map_append, ← ih,
        List.filterMap_cons]
      cases text.dropPrefix? word with
      | none => rfl
      | some rest =>
          rw [List.map_cons, List.flatMap_cons, Match.map_andThen_of_no_groups, hsecond rest]
          rfl

/-- An alternative spells the words of both. -/
theorem Spells.alt (h : Spells first words) (hsecond : Spells second others) :
    Spells (alt first second) (words ++ others) := by
  intro text
  rw [run, h text, hsecond text, List.filterMap_append, List.map_append]

/-- An optional part spells its words and the empty one. -/
theorem Spells.opt (h : Spells body words) : Spells (opt body) (words ++ [[]]) :=
  h.alt spells_empty

/-- A literal spells its word. -/
theorem spells_lit (word : List Char) : Spells (lit word) [word] := by
  induction word with
  | nil => exact spells_empty
  | cons d word ih =>
      have hset : Spells (set (· == d)) [[d]] := by
        intro text
        cases text with
        | nil => rfl
        | cons c rest =>
            show (if c == d then _ else _) = (([[d]].filterMap (c :: rest).dropPrefix?).map _)
            have hdrop : (c :: rest).dropPrefix? [d] = if c == d then some rest else none := by
              show (if c == d then rest.dropPrefix? [] else none) = _
              rw [List.dropPrefix?_nil]
            rw [List.filterMap_cons, hdrop]
            split_ifs <;> rfl
      exact hset.seq ih

/-- A choice of words spells them. -/
theorem spells_oneOf (words : List (List Char)) : Spells (oneOf words) words := by
  induction words with
  | nil =>
      intro text
      cases text <;> rfl
  | cons word words ih => exact (spells_lit word).alt ih

/-- Behind words stands the match behind the first word that has one. -/
theorem Spells.first_seq (h : Spells first words) (text : List Char) :
    (run (Regex.seq first second) text).head? =
      words.findSome? fun word =>
        (text.dropPrefix? word).bind fun rest => (run second rest).head? := by
  rw [run, h text]
  clear h
  induction words with
  | nil => rfl
  | cons word words ih =>
      rw [List.findSome?_cons, List.filterMap_cons]
      cases hdrop : text.dropPrefix? word with
      | none => exact ih
      | some rest =>
          rw [List.map_cons, List.flatMap_cons, Match.map_andThen_of_no_groups, List.head?_append,
            ih, Option.bind_some]
          cases (run second rest).head? <;> rfl

/-! ## Searches -/

/-- A search takes the first place where the regex matches. -/
theorem captures_eq_findSome (regex : Regex) (text : List Char) :
    captures regex text = text.tails.findSome? fun start => (run regex start).head? := by
  induction text with
  | nil =>
      rw [captures, List.tails]
      cases h : (run regex []).head? <;> simp [h]
  | cons c rest ih =>
      rw [captures, List.tails, List.findSome?_cons, ← ih]
      cases (run regex (c :: rest)).head? <;> rfl

/-- Every match has a character. -/
def Advances (regex : Regex) : Prop :=
  ∀ text, ∀ m ∈ run regex text, m.rest.length < text.length

/-- The expression matches no text with this character. -/
def Avoids (c : Char) : Regex → Prop
  | empty => True
  | set p => p c = false
  | seq first second => Avoids c first ∧ Avoids c second
  | alt first second => Avoids c first ∧ Avoids c second
  | star body => Avoids c body
  | group _ body => Avoids c body

/-- A match reads a text in front of what it leaves. -/
theorem exists_lead (h : m ∈ run regex text) :
    ∃ lead, text = lead ++ m.rest ∧ ∀ c ∈ lead, ¬Avoids c regex := by
  induction regex generalizing text m with
  | empty =>
      rw [List.mem_singleton.mp h]
      exact ⟨[], rfl, fun c hc => absurd hc List.not_mem_nil⟩
  | set p =>
      cases text with
      | nil => cases h
      | cons c rest =>
          rw [run] at h
          split_ifs at h with hc
          · rw [List.mem_singleton.mp h]
            refine ⟨[c], rfl, fun d hd havoids => ?_⟩
            rw [List.mem_singleton.mp hd] at havoids
            exact Bool.false_ne_true (havoids.symm.trans hc)
          · cases h
  | seq first second ihfirst ihsecond =>
      obtain ⟨before, hbefore, hm⟩ := List.mem_flatMap.mp h
      obtain ⟨next, hnext, rfl⟩ := List.mem_map.mp hm
      obtain ⟨lead, htext, hlead⟩ := ihfirst hbefore
      obtain ⟨mid, hrest, hmid⟩ := ihsecond hnext
      refine ⟨lead ++ mid, Match.lead_andThen htext hrest, fun c hc havoids => ?_⟩
      rcases List.mem_append.mp hc with hc | hc
      · exact hlead c hc havoids.1
      · exact hmid c hc havoids.2
  | alt first second ihfirst ihsecond =>
      rcases List.mem_append.mp h with h | h
      · obtain ⟨lead, htext, hlead⟩ := ihfirst h
        exact ⟨lead, htext, fun c hc havoids => hlead c hc havoids.1⟩
      · obtain ⟨lead, htext, hlead⟩ := ihsecond h
        exact ⟨lead, htext, fun c hc havoids => hlead c hc havoids.2⟩
  | star body ih =>
      induction hlength : text.length using Nat.strong_induction_on generalizing text m with
      | _ length ihlength =>
          rw [run_star, List.mem_append] at h
          rcases h with h | h
          · obtain ⟨before, hbefore, hm⟩ := List.mem_flatMap.mp h
            obtain ⟨next, hnext, rfl⟩ := List.mem_map.mp hm
            rw [List.mem_filter] at hbefore
            obtain ⟨lead, htext, hlead⟩ := ih hbefore.1
            obtain ⟨mid, hrest, hmid⟩ :=
              ihlength before.rest.length (hlength ▸ of_decide_eq_true hbefore.2) hnext rfl
            refine ⟨lead ++ mid, Match.lead_andThen htext hrest, fun c hc havoids => ?_⟩
            rcases List.mem_append.mp hc with hc | hc
            · exact hlead c hc havoids
            · exact hmid c hc havoids
          · rw [List.mem_singleton.mp h]
            exact ⟨[], rfl, fun c hc => absurd hc List.not_mem_nil⟩
  | group index body ih =>
      obtain ⟨inner, hinner, rfl⟩ := List.mem_map.mp h
      obtain ⟨lead, htext, hlead⟩ := ih hinner
      exact ⟨lead, htext, hlead⟩

/-- Every match reads this character. -/
def Requires (c : Char) (regex : Regex) : Prop :=
  ∀ text, ∀ m ∈ run regex text, ∃ lead, text = lead ++ m.rest ∧ c ∈ lead

/-- A literal character is required. -/
theorem requires_char (c : Char) : Requires c (set (· == c)) := by
  intro text m h
  cases text with
  | nil => cases h
  | cons d rest =>
      rw [run] at h
      split_ifs at h with hd
      · rw [List.mem_singleton.mp h]
        exact ⟨[d], rfl, List.mem_singleton.mpr (eq_of_beq hd).symm⟩
      · cases h

/-- What the first part requires. -/
theorem Requires.seq_left (h : Requires c first) : Requires c (seq first second) := by
  intro text m hm
  obtain ⟨before, hbefore, hm⟩ := List.mem_flatMap.mp hm
  obtain ⟨next, hnext, rfl⟩ := List.mem_map.mp hm
  obtain ⟨lead, htext, hlead⟩ := h text before hbefore
  obtain ⟨mid, hrest, -⟩ := exists_lead hnext
  exact ⟨lead ++ mid, Match.lead_andThen htext hrest, List.mem_append_left _ hlead⟩

/-- What the second part requires. -/
theorem Requires.seq_right (h : Requires c second) : Requires c (seq first second) := by
  intro text m hm
  obtain ⟨before, hbefore, hm⟩ := List.mem_flatMap.mp hm
  obtain ⟨next, hnext, rfl⟩ := List.mem_map.mp hm
  obtain ⟨lead, htext, -⟩ := exists_lead hbefore
  obtain ⟨mid, hrest, hmid⟩ := h before.rest next hnext
  exact ⟨lead ++ mid, Match.lead_andThen htext hrest, List.mem_append_right _ hmid⟩

/-- A match does not make the rest longer. -/
theorem length_rest_le (h : m ∈ run regex text) : m.rest.length ≤ text.length := by
  obtain ⟨lead, htext, -⟩ := exists_lead h
  rw [htext, List.length_append]
  omega

/-- What the group around an expression has matched. -/
theorem exists_group (h : m ∈ run (group index body) text) :
    ∃ inner ∈ run body text, ∃ lead, text = lead ++ inner.rest ∧ m.rest = inner.rest ∧
      m.group index = some lead := by
  obtain ⟨inner, hinner, rfl⟩ := List.mem_map.mp h
  obtain ⟨lead, htext, -⟩ := exists_lead hinner
  refine ⟨inner, hinner, lead, htext, rfl, ?_⟩
  have hlength : text.length - inner.rest.length = lead.length := by
    rw [htext, List.length_append]
    omega
  rw [Match.group, List.lookup_cons_self, hlength, htext, List.take_left]

/-- A set takes a character. -/
theorem advances_set : Advances (set p) := by
  intro text m h
  cases text with
  | nil => cases h
  | cons c rest =>
      rw [run] at h
      split_ifs at h
      · rw [List.mem_singleton.mp h]
        exact Nat.lt_succ_self _
      · cases h

/-- A sequence advances with its first part. -/
theorem Advances.seq_left (h : Advances first) : Advances (seq first second) := by
  intro text m hm
  obtain ⟨lead, hlead, hm⟩ := List.mem_flatMap.mp hm
  obtain ⟨next, hnext, rfl⟩ := List.mem_map.mp hm
  have hle : next.rest.length ≤ lead.rest.length := length_rest_le hnext
  exact Nat.lt_of_le_of_lt hle (h text lead hlead)

/-- A sequence advances with its second part. -/
theorem Advances.seq_right (h : Advances second) : Advances (seq first second) := by
  intro text m hm
  obtain ⟨lead, hlead, hm⟩ := List.mem_flatMap.mp hm
  obtain ⟨next, hnext, rfl⟩ := List.mem_map.mp hm
  exact Nat.lt_of_lt_of_le (h lead.rest next hnext) (length_rest_le hlead)

/-- A group advances with its body. -/
theorem Advances.group (h : Advances body) : Advances (group index body) := by
  intro text m hm
  obtain ⟨inner, hinner, rfl⟩ := List.mem_map.mp hm
  exact h text inner hinner

/-- What advances does not match at the end. -/
theorem Advances.run_nil (h : Advances regex) : run regex [] = [] :=
  List.eq_nil_iff_forall_not_mem.mpr fun m hm => absurd (h [] m hm) (Nat.not_lt_zero _)

/-- The first match makes the rest shorter. -/
theorem Advances.head_shorter (h : Advances regex) (hm : (run regex text).head? = some m) :
    m.rest.length < text.length :=
  h text m (List.mem_of_head? hm)

/-- More fuel than characters is enough, and any more gives the same. -/
theorem capturesFrom_fuel (h : Advances regex) {fuel other : ℕ} {adjacent next : Bool}
    (hfuel : text.length < fuel) (hother : text.length < other) :
    capturesFrom regex fuel adjacent text = capturesFrom regex other next text := by
  induction fuel generalizing other adjacent next text with
  | zero => omega
  | succ fuel ih =>
      obtain ⟨other, rfl⟩ : ∃ count, other = count + 1 := ⟨other - 1, by omega⟩
      rw [capturesFrom, capturesFrom]
      cases hfirst : (run regex text).head? with
      | none =>
          cases text with
          | nil => rfl
          | cons c rest =>
              rw [List.length_cons] at hfuel hother
              show capturesFrom regex fuel false rest = capturesFrom regex other false rest
              exact ih (by omega) (by omega)
      | some m =>
          have hshorter := h.head_shorter hfirst
          dsimp only
          rw [if_pos hshorter, if_pos hshorter, List.cons_inj_right]
          exact ih (by omega) (by omega)

/-- In an empty text nothing is found. -/
theorem capturesIter_nil (h : Advances regex) : capturesIter regex [] = [] := by
  rw [capturesIter, capturesFrom, h.run_nil]
  rfl

/-- A match at the front is the first one, and the search goes on behind it. -/
theorem capturesIter_of_match (h : Advances regex) (hm : (run regex text).head? = some m) :
    capturesIter regex text = m :: capturesIter regex m.rest := by
  have hshorter := h.head_shorter hm
  rw [capturesIter, capturesFrom, hm]
  dsimp only
  rw [if_pos hshorter, capturesIter, List.cons_inj_right]
  exact capturesFrom_fuel h hshorter (Nat.lt_succ_self _)

/-- Without a match at the front the search goes on with the next character. -/
theorem capturesIter_of_no_match (h : Advances regex)
    (hnone : (run regex (c :: rest)).head? = none) :
    capturesIter regex (c :: rest) = capturesIter regex rest := by
  rw [capturesIter, capturesFrom, hnone, capturesIter]
  exact capturesFrom_fuel h (Nat.lt_succ_self _) (Nat.lt_succ_self _)

/-! ## Characters that no match has -/

/-- The same match with more text behind it. -/
def Match.extend (tail : List Char) (m : Match) : Match :=
  ⟨m.groups, m.rest ++ tail⟩

/-- Matches end in front of a character that none of them has. -/
theorem run_append (h : Avoids c regex) (text rest : List Char) :
    run regex (text ++ c :: rest) = (run regex text).map (Match.extend (c :: rest)) := by
  induction regex generalizing text with
  | empty => rfl
  | set p =>
      cases text with
      | nil => exact run_set_of_not h
      | cons d front =>
          rw [List.cons_append, run, run]
          split_ifs <;> rfl
  | seq first second ihfirst ihsecond =>
      rw [run, run, ihfirst h.1, List.flatMap_map, List.map_flatMap]
      refine List.flatMap_congr fun m _ => ?_
      rw [Match.extend, ihsecond h.2, List.map_map, List.map_map]
      rfl
  | alt first second ihfirst ihsecond =>
      rw [run, run, ihfirst h.1, ihsecond h.2, List.map_append]
  | star body ih =>
      induction hlength : text.length using Nat.strong_induction_on generalizing text with
      | _ length ihlength =>
          rw [run_star, run_star, ih h, List.map_append, List.filter_map, List.flatMap_map,
            List.map_flatMap]
          have hfilter : ((run body text).filter ((fun m : Match =>
              decide (m.rest.length < (text ++ c :: rest).length)) ∘ Match.extend (c :: rest))) =
              (run body text).filter fun m => m.rest.length < text.length := by
            refine List.filter_congr fun m _ => ?_
            simp [Match.extend]
          rw [hfilter]
          refine congrArg (· ++ [(⟨[], text ++ c :: rest⟩ : Match)])
            (List.flatMap_congr fun m hm => ?_)
          have hshorter := of_decide_eq_true (List.mem_filter.mp hm).2
          rw [Match.extend, ihlength m.rest.length (hlength ▸ hshorter) m.rest rfl, List.map_map,
            List.map_map]
          rfl
  | group index body ih =>
      rw [run, run, ih h, List.map_map, List.map_map]
      refine List.map_congr_left fun m hm => ?_
      have hle := length_rest_le hm
      have htake : (text ++ c :: rest).take
          ((text ++ c :: rest).length - (m.rest ++ c :: rest).length) =
          text.take (text.length - m.rest.length) := by
        rw [List.length_append, List.length_append, Nat.add_sub_add_right,
          List.take_append_of_le_length (Nat.sub_le _ _)]
      rw [Function.comp_apply, Function.comp_apply, Match.extend, htake]
      rfl

/-- So a search finds the matches on its two sides. -/
theorem capturesIter_append (hadvances : Advances regex) (h : Avoids c regex)
    (text rest : List Char) :
    capturesIter regex (text ++ c :: rest) =
      (capturesIter regex text).map (Match.extend (c :: rest)) ++ capturesIter regex rest := by
  induction hlength : text.length using Nat.strong_induction_on generalizing text with
  | _ length ih =>
      have hrun := congrArg List.head? (run_append h text rest)
      rw [List.head?_map] at hrun
      cases hfirst : (run regex text).head? with
      | some m =>
          have hshorter := hadvances.head_shorter hfirst
          rw [hfirst, Option.map_some] at hrun
          rw [capturesIter_of_match hadvances hfirst, capturesIter_of_match hadvances hrun,
            List.map_cons, List.cons_append]
          exact congrArg _ (ih m.rest.length (hlength ▸ hshorter) m.rest rfl)
      | none =>
          rw [hfirst, Option.map_none] at hrun
          cases text with
          | nil =>
              rw [capturesIter_nil hadvances]
              exact capturesIter_of_no_match hadvances hrun
          | cons d front =>
              rw [List.cons_append] at hrun ⊢
              rw [capturesIter_of_no_match hadvances hfirst,
                capturesIter_of_no_match hadvances hrun]
              exact ih front.length (hlength ▸ Nat.lt_succ_self _) front rfl

end Regex
