import DomainStatus.Fetch.ExternalScripts
import DomainStatus.Lib.Distinct
import DomainStatus.Lib.Lowercase
import DomainStatus.Lib.Regex

/-!
# The hosts of a content security policy

`extract_csp_domains` of `src/fetch/record/builder.rs`, on the characters of the header value. Its
regular expression is searched for in all values of a directive together. Read
`FindsHosts.opt_seq` first: in front of a host the expression reads only what the search for the
host alone passes over.
-/

namespace DomainStatus.Fetch

open Text

/-- `[-a-zA-Z0-9]`. -/
def isLabelChar (c : Char) : Bool :=
  c == '-' || c.isAlphanum

/-- `[a-zA-Z0-9][-a-zA-Z0-9]*`. -/
def labelRe : Regex :=
  .seq (.set Char.isAlphanum) (.star (.set isLabelChar))

/-- `(?:\.[a-zA-Z0-9][-a-zA-Z0-9]*)+`. -/
def dottedLabelsRe : Regex :=
  .plus (.seq (.lit ['.']) labelRe)

/-- The second group of the expression: labels with dots between them. -/
def fqdnRe : Regex :=
  .group 2 (.seq labelRe dottedLabelsRe)

/-- `(?:https?://)?(\*\.)?([a-zA-Z0-9][-a-zA-Z0-9]*(?:\.[a-zA-Z0-9][-a-zA-Z0-9]*)+)`. -/
def cspDomainRe : Regex :=
  .seq (.opt (.seq (.lit "http".toList) (.seq (.opt (.lit ['s'])) (.lit "://".toList))))
    (.seq (.opt (.group 1 (.lit "*.".toList))) fqdnRe)

/-- The two collections of the loop. -/
structure CspScan where
  results : List (String × String × Option String)
  seen : List (String × String)

section

variable (psl : Psl) (properties : CaseProperties)

/-- The body of the loop over the captures. -/
def recordDomain (directive : String) (state : CspScan) (cap : Regex.Match) : CspScan :=
  match cap.group 2 with
  | some fqdnMatch =>
      let fqdn := String.ofList (toLowercase properties fqdnMatch)
      if fqdn = "self" ∨ fqdn = "none" ∨ fqdn = "unsafe-inline" then state
      else
        let key := (directive, fqdn)
        if state.seen.contains key then state
        else
          { results := state.results ++ [(directive, fqdn, rootDomain psl fqdn)]
            seen := state.seen ++ [key] }
  | none => state

/-- The name of a directive and its values: `splitn(2, ' ')` of the trimmed part. -/
def splitDirective (directivePart : List Char) : String × List Char :=
  match splitOnce ' ' (trimChars directivePart) with
  | some (directive, values) => (String.ofList directive, values)
  | none => (String.ofList (trimChars directivePart), [])

/-- The body of the loop over the directives. -/
def scanDirective (state : CspScan) (directivePart : List Char) : CspScan :=
  let (directive, values) := splitDirective directivePart
  (cspDomainRe.capturesIter values).foldl (recordDomain psl properties directive) state

/-- The directives of a policy with the hosts that they list, each pair once. -/
def extractCspDomains (csp : List Char) : List (String × String × Option String) :=
  ((csp.splitOn ';').foldl (scanDirective psl properties) ⟨[], []⟩).results

end

/-- The texts that are read as hosts by the part of the expression for the host alone. -/
def hostTexts (text : List Char) : List (List Char) :=
  (fqdnRe.capturesIter text).filterMap (·.group 2)

variable {text rest : List Char} {c : Char} {m : Regex.Match}

/-! ## The host alone -/

/-- Letters and digits are characters of labels. -/
theorem isLabelChar_of_isAlphanum (h : c.isAlphanum = true) : isLabelChar c = true := by
  rw [isLabelChar, h, Bool.or_true]

/-- Labels are ASCII. -/
theorem toNat_of_isLabelChar (h : isLabelChar c = true) : c.toNat < 128 := by
  have hcases : c = '-' ∨ c.isAlphanum = true := by simpa [isLabelChar] using h
  rcases hcases with rfl | halphanum
  · decide
  · unfold Char.isAlphanum Char.isAlpha Char.isUpper Char.isLower Char.isDigit at halphanum
    simp only [Bool.or_eq_true, Bool.and_eq_true, decide_eq_true_eq, ge_iff_le,
      UInt32.le_iff_toNat_le] at halphanum
    have hlast : c.toNat ≤ 'z'.val.toNat := by
      rcases halphanum with (h | h) | h
      · exact h.2.trans (by decide)
      · exact h.2
      · exact h.2.trans (by decide)
    exact Nat.lt_of_le_of_lt hlast (by decide)

/-- A dot ends a label. -/
theorem not_isLabelChar_dot : isLabelChar '.' = false := by
  decide

/-- A label has a character. -/
theorem advances_labelRe : labelRe.Advances :=
  Regex.advances_set.seq_left

/-- A host has a character. -/
theorem advances_fqdnRe : fqdnRe.Advances :=
  advances_labelRe.seq_left.group

/-- No host has this character. -/
theorem avoids_fqdnRe (hlabel : isLabelChar c = false) (hdot : c ≠ '.') : fqdnRe.Avoids c := by
  have halphanum : c.isAlphanum = false := (Bool.or_eq_false_iff.mp hlabel).2
  have hlabelRe : labelRe.Avoids c := ⟨halphanum, hlabel⟩
  have hlit : (Regex.lit ['.']).Avoids c := ⟨beq_false_of_ne hdot, trivial⟩
  exact ⟨hlabelRe, ⟨hlit, hlabelRe⟩, hlit, hlabelRe⟩

/-- A host has a dot. -/
theorem requires_dot : (Regex.seq labelRe dottedLabelsRe).Requires '.' :=
  (Regex.requires_char '.').seq_left.seq_left.seq_left.seq_right

/-- Without a dot no further label follows. -/
theorem run_dotted_of_ne (hdot : c ≠ '.') :
    (Regex.seq (.lit ['.']) labelRe).run (c :: rest) = [] :=
  Regex.run_seq_eq_nil (Regex.run_seq_eq_nil (Regex.run_set_of_not (beq_false_of_ne hdot)))

/-- Without a dot there are no further labels. -/
theorem run_dottedLabelsRe_of_ne (hdot : c ≠ '.') : dottedLabelsRe.run (c :: rest) = [] :=
  Regex.run_seq_eq_nil (run_dotted_of_ne hdot)

/-- The first label of a host is as long as it can be. -/
theorem run_first_label (hc : c.isAlphanum = true) :
    (Regex.seq labelRe dottedLabelsRe).run (c :: rest) =
      dottedLabelsRe.run (rest.dropWhile isLabelChar) := by
  rw [labelRe, Regex.run_seq_assoc, Regex.run_set_seq hc, Regex.run_star_set_seq]
  intro d tail hd
  apply run_dottedLabelsRe_of_ne
  rintro rfl
  rw [not_isLabelChar_dot] at hd
  cases hd

/-- A host starts with a letter or a digit. -/
theorem run_fqdnRe_of_not (hc : c.isAlphanum = false) : fqdnRe.run (c :: rest) = [] :=
  Regex.run_group_eq_nil (Regex.run_seq_eq_nil (Regex.run_seq_eq_nil (Regex.run_set_of_not hc)))

/-- A text without a dot has no host. -/
theorem run_fqdnRe_of_no_dot (h : '.' ∉ text) : fqdnRe.run text = [] := by
  cases text with
  | nil => exact advances_fqdnRe.run_nil
  | cons c rest =>
      by_cases hc : c.isAlphanum = true
      · apply Regex.run_group_eq_nil
        rw [run_first_label hc]
        cases hdrop : rest.dropWhile isLabelChar with
        | nil => exact (advances_labelRe.seq_right.seq_left).run_nil
        | cons d tail =>
            apply run_dottedLabelsRe_of_ne
            rintro rfl
            refine h (List.mem_cons_of_mem _ ((List.dropWhile_sublist isLabelChar).mem ?_))
            rw [hdrop]
            exact List.mem_cons_self
      · exact run_fqdnRe_of_not (Bool.not_eq_true _ ▸ hc)

/-! ## Hosts in a text -/

/-- An empty text has no hosts. -/
theorem hostTexts_nil : hostTexts [] = [] := by
  rw [hostTexts, Regex.capturesIter_nil advances_fqdnRe]
  rfl

/-- A host at the front comes first. -/
theorem hostTexts_of_match (h : (fqdnRe.run text).head? = some m) :
    hostTexts text = (m.group 2).toList ++ hostTexts m.rest := by
  rw [hostTexts, Regex.capturesIter_of_match advances_fqdnRe h, List.filterMap_cons]
  cases m.group 2 <;> rfl

/-- A character that starts no host is passed over. -/
theorem hostTexts_of_no_match (h : (fqdnRe.run (c :: rest)).head? = none) :
    hostTexts (c :: rest) = hostTexts rest := by
  rw [hostTexts, Regex.capturesIter_of_no_match advances_fqdnRe h, hostTexts]

/-- A dot at the front is passed over. -/
theorem hostTexts_dot (rest : List Char) : hostTexts ('.' :: rest) = hostTexts rest :=
  hostTexts_of_no_match (by rw [run_fqdnRe_of_not (by decide)]; rfl)

/-- A text without a dot has no hosts. -/
theorem hostTexts_of_no_dot (h : '.' ∉ text) : hostTexts text = [] := by
  induction text with
  | nil => exact hostTexts_nil
  | cons c rest ih =>
      rw [hostTexts_of_no_match (by rw [run_fqdnRe_of_no_dot h]; rfl)]
      exact ih fun hmem => h (List.mem_cons_of_mem _ hmem)

/-- A character that no host has separates the hosts on its two sides. -/
theorem hostTexts_append (hlabel : isLabelChar c = false) (hdot : c ≠ '.')
    (text rest : List Char) :
    hostTexts (text ++ c :: rest) = hostTexts text ++ hostTexts rest := by
  rw [hostTexts, Regex.capturesIter_append advances_fqdnRe (avoids_fqdnRe hlabel hdot),
    List.filterMap_append, List.filterMap_map]
  rfl

/-- A character that is in no host is passed over. -/
theorem hostTexts_cons (hlabel : isLabelChar c = false) (hdot : c ≠ '.') (rest : List Char) :
    hostTexts (c :: rest) = hostTexts rest := by
  have h := hostTexts_append hlabel hdot [] rest
  rwa [hostTexts_nil, List.nil_append, List.nil_append] at h

/-- The scheme of a URL is passed over. -/
theorem hostTexts_scheme {scheme : List Char} (h : '.' ∉ scheme) (rest : List Char) :
    hostTexts (scheme ++ "://".toList ++ rest) = hostTexts rest := by
  have htext : scheme ++ "://".toList ++ rest = scheme ++ ':' :: ('/' :: ('/' :: rest)) := by
    rw [List.append_assoc]
    rfl
  rw [htext, hostTexts_append (by decide) (by decide), hostTexts_of_no_dot h, List.nil_append,
    hostTexts_cons (by decide) (by decide), hostTexts_cons (by decide) (by decide)]

/-- The mark of a wildcard is passed over. -/
theorem hostTexts_wildcard (rest : List Char) : hostTexts ("*.".toList ++ rest) = hostTexts rest :=
  (hostTexts_cons (by decide) (by decide) ('.' :: rest)).trans (hostTexts_dot rest)

/-- A host has a dot, and otherwise characters of labels. -/
theorem mem_hostTexts {host : List Char} (h : host ∈ hostTexts text) :
    '.' ∈ host ∧ ∀ c ∈ host, c = '.' ∨ isLabelChar c = true := by
  induction hlength : text.length using Nat.strong_induction_on generalizing text with
  | _ length ih =>
      cases hfirst : (fqdnRe.run text).head? with
      | none =>
          cases text with
          | nil =>
              rw [hostTexts_nil] at h
              cases h
          | cons c rest =>
              rw [hostTexts_of_no_match hfirst] at h
              exact ih rest.length (hlength ▸ Nat.lt_succ_self _) h rfl
      | some m =>
          rw [hostTexts_of_match hfirst] at h
          rcases List.mem_append.mp h with h | h
          · obtain ⟨inner, hinner, lead, htext, -, hgroup⟩ :=
              Regex.exists_group (List.mem_of_head? hfirst)
            rw [hgroup] at h
            rw [List.mem_singleton.mp h]
            constructor
            · obtain ⟨front, hfront, hdot⟩ := requires_dot text inner hinner
              rw [List.append_cancel_right (htext.symm.trans hfront)]
              exact hdot
            · obtain ⟨front, hfront, havoids⟩ := Regex.exists_lead hinner
              rw [List.append_cancel_right (htext.symm.trans hfront)]
              intro c hc
              by_contra hnot
              rw [not_or, Bool.not_eq_true] at hnot
              exact havoids c hc (avoids_fqdnRe hnot.2 hnot.1)
          · exact ih m.rest.length (hlength ▸ advances_fqdnRe.head_shorter hfirst) h rfl

/-! ## The whole expression -/

/-- The search for this expression finds the hosts, and at their places or in front of them. -/
structure FindsHosts (regex : Regex) : Prop where
  advances : regex.Advances
  of_match : ∀ {text m}, (regex.run text).head? = some m →
    hostTexts text = (m.group 2).toList ++ hostTexts m.rest
  of_no_match : ∀ {text}, (regex.run text).head? = none → (fqdnRe.run text).head? = none

/-- The regex for hosts finds them. -/
theorem findsHosts_fqdnRe : FindsHosts fqdnRe where
  advances := advances_fqdnRe
  of_match := hostTexts_of_match
  of_no_match h := h

/-- In front of a host the expression may read what the search for the host passes over. -/
theorem FindsHosts.opt_seq {regex lead : Regex} (h : FindsHosts regex)
    (hlead : ∀ text, ∀ m ∈ lead.run text, m.group 2 = none ∧ hostTexts text = hostTexts m.rest) :
    FindsHosts (.seq (.opt lead) regex) where
  advances := h.advances.seq_right
  of_match {text m} hm := by
    rw [Regex.run_opt_seq, List.head?_append] at hm
    cases hfirst : ((Regex.seq lead regex).run text).head? with
    | none =>
        rw [hfirst, Option.none_or] at hm
        exact h.of_match hm
    | some first =>
        rw [hfirst, Option.some_or, Option.some_inj] at hm
        subst hm
        obtain ⟨before, hbefore, next, hnext, rfl⟩ := Regex.exists_of_first_seq hfirst
        obtain ⟨hgroup, hpassed⟩ := hlead text before hbefore
        rw [hpassed, h.of_match hnext, Regex.Match.group_andThen, hgroup, Option.or_none]
        rfl
  of_no_match {text} hm := by
    rw [Regex.run_opt_seq, List.head?_append, Option.or_eq_none_iff] at hm
    exact h.of_no_match hm.2

/-- The regex of the program finds the same hosts. -/
theorem findsHosts_cspDomainRe : FindsHosts cspDomainRe := by
  refine (findsHosts_fqdnRe.opt_seq ?_).opt_seq ?_
  · intro text m hm
    obtain ⟨inner, hinner, rfl⟩ := List.mem_map.mp hm
    obtain ⟨word, hword, htext, hgroups⟩ := (Regex.spells_lit _).exists_word hinner
    rw [List.mem_singleton] at hword
    refine ⟨?_, ?_⟩
    · rw [Regex.Match.group, hgroups]
      rfl
    · rw [htext, hword]
      exact hostTexts_wildcard inner.rest
  · intro text m hm
    have hspells := (Regex.spells_lit "http".toList).seq
      ((Regex.spells_lit ['s']).opt.seq (Regex.spells_lit "://".toList))
    obtain ⟨word, hword, htext, hgroups⟩ := hspells.exists_word hm
    refine ⟨by rw [Regex.Match.group, hgroups]; rfl, ?_⟩
    have hscheme : word = "https".toList ++ "://".toList ∨
        word = "http".toList ++ "://".toList := by
      simpa using hword
    rw [htext]
    rcases hscheme with rfl | rfl
    · exact hostTexts_scheme (by decide) m.rest
    · exact hostTexts_scheme (by decide) m.rest

/-- The hosts that a regex captures in a text. -/
theorem FindsHosts.filterMap_captures {regex : Regex} (h : FindsHosts regex) (text : List Char) :
    (regex.capturesIter text).filterMap (·.group 2) = hostTexts text := by
  induction hlength : text.length using Nat.strong_induction_on generalizing text with
  | _ length ih =>
      cases hfirst : (regex.run text).head? with
      | some m =>
          rw [Regex.capturesIter_of_match h.advances hfirst, h.of_match hfirst,
            List.filterMap_cons,
            ← ih m.rest.length (hlength ▸ h.advances.head_shorter hfirst) m.rest rfl]
          cases m.group 2 <;> rfl
      | none =>
          cases text with
          | nil =>
              rw [Regex.capturesIter_nil h.advances, hostTexts_nil]
              rfl
          | cons c rest =>
              rw [Regex.capturesIter_of_no_match h.advances hfirst,
                hostTexts_of_no_match (h.of_no_match hfirst)]
              exact ih rest.length (hlength ▸ Nat.lt_succ_self _) rest rfl

/-! ## The loops -/

section

variable (psl : Psl) (properties : CaseProperties)

/-- A pair with the registrable domain that the results have for it. -/
def withRootDomain (pair : String × String) : String × String × Option String :=
  (pair.1, pair.2, rootDomain psl pair.2)

/-- The host as it is listed. -/
def lowercased (host : List Char) : String :=
  String.ofList (host.map Char.toLower)

/-- The pairs of a directive with repetitions. -/
def directivePairs (directivePart : List Char) : List (String × String) :=
  let (directive, values) := splitDirective directivePart
  (hostTexts values).map fun host => (directive, lowercased host)

/-- The loops have seen the distinct ones of these pairs. -/
structure CspScan.Lists (state : CspScan) (pairs : List (String × String)) : Prop where
  seen : state.seen = pairs.eraseDups
  results : state.results = pairs.eraseDups.map (withRootDomain psl)

variable {psl properties} {state : CspScan} {pairs : List (String × String)}

/-- Hosts are ASCII, so that their lower case is the plain one. -/
theorem toLowercase_host {host : List Char} (hhost : host ∈ hostTexts text) :
    toLowercase properties host = host.map Char.toLower := by
  refine toLowercase_of_ascii fun c hc => ?_
  rcases (mem_hostTexts hhost).2 c hc with rfl | hlabel
  · decide
  · exact toNat_of_isLabelChar hlabel

/-- No host is one of the keywords. -/
theorem lowercased_ne {host : List Char} (hhost : host ∈ hostTexts text) {keyword : String}
    (hkeyword : '.' ∉ keyword.toList) : lowercased host ≠ keyword := by
  rintro rfl
  rw [lowercased, String.toList_ofList] at hkeyword
  exact hkeyword (List.mem_map.mpr ⟨'.', (mem_hostTexts hhost).1, rfl⟩)

/-- A recorded host is listed under its directive. -/
theorem lists_recordDomain (hstate : state.Lists psl pairs) {directive : String}
    {cap : Regex.Match} {host : List Char} (hgroup : cap.group 2 = some host)
    (hhost : host ∈ hostTexts text) :
    (recordDomain psl properties directive state cap).Lists psl
      (pairs ++ [(directive, lowercased host)]) := by
  have hkeyword : ¬(lowercased host = "self" ∨ lowercased host = "none" ∨
      lowercased host = "unsafe-inline") := by
    rintro (h | h | h)
    · exact lowercased_ne hhost (by decide) h
    · exact lowercased_ne hhost (by decide) h
    · exact lowercased_ne hhost (by decide) h
  have hseen : state.seen.contains (directive, lowercased host) = true ↔
      (directive, lowercased host) ∈ pairs := by
    rw [List.contains_iff_mem, hstate.seen, List.mem_eraseDups]
  simp only [recordDomain, hgroup, toLowercase_host hhost]
  rw [lowercased] at hkeyword hseen ⊢
  rw [if_neg hkeyword]
  by_cases hmem : (directive, String.ofList (host.map Char.toLower)) ∈ pairs
  · rw [if_pos (hseen.mpr hmem)]
    constructor
    · rw [Distinct.eraseDups_concat, if_pos hmem, hstate.seen]
    · rw [Distinct.eraseDups_concat, if_pos hmem, hstate.results]
  · rw [if_neg fun h => hmem (hseen.mp h)]
    constructor
    · rw [Distinct.eraseDups_concat, if_neg hmem, hstate.seen]
    · rw [Distinct.eraseDups_concat, if_neg hmem, hstate.results, List.map_append]
      rfl

/-- The hosts of one directive are listed. -/
theorem lists_foldl_recordDomain (hstate : state.Lists psl pairs) (directive : String)
    (caps : List Regex.Match)
    (hcaps : ∀ host ∈ caps.filterMap (·.group 2), host ∈ hostTexts text) :
    (caps.foldl (recordDomain psl properties directive) state).Lists psl
      (pairs ++ (caps.filterMap (·.group 2)).map fun host => (directive, lowercased host)) := by
  induction caps generalizing state pairs with
  | nil =>
      rw [List.filterMap_nil, List.map_nil, List.append_nil]
      exact hstate
  | cons cap caps ih =>
      rw [List.foldl_cons]
      rw [List.filterMap_cons] at hcaps ⊢
      cases hgroup : cap.group 2 with
      | none =>
          rw [hgroup] at hcaps
          have hskip : recordDomain psl properties directive state cap = state := by
            rw [recordDomain, hgroup]
          rw [hskip]
          exact ih hstate hcaps
      | some host =>
          rw [hgroup] at hcaps
          have hstep : (recordDomain psl properties directive state cap).Lists psl
              (pairs ++ [(directive, lowercased host)]) :=
            lists_recordDomain hstate hgroup (hcaps host List.mem_cons_self)
          have hrun := ih hstep fun other hother => hcaps other (List.mem_cons_of_mem _ hother)
          rw [List.append_assoc, List.singleton_append] at hrun
          exact hrun

/-- The hosts of one part of the policy are listed. -/
theorem lists_scanDirective (hstate : state.Lists psl pairs) (directivePart : List Char) :
    (scanDirective psl properties state directivePart).Lists psl
      (pairs ++ directivePairs directivePart) := by
  rcases hsplit : splitDirective directivePart with ⟨directive, values⟩
  have hhosts := findsHosts_cspDomainRe.filterMap_captures values
  simp only [scanDirective, directivePairs, hsplit]
  rw [← hhosts]
  exact lists_foldl_recordDomain hstate directive _ fun host hhost => hhosts ▸ hhost

/-- The hosts of all parts are listed. -/
theorem lists_foldl_scanDirective (hstate : state.Lists psl pairs) (parts : List (List Char)) :
    (parts.foldl (scanDirective psl properties) state).Lists psl
      (pairs ++ parts.flatMap directivePairs) := by
  induction parts generalizing state pairs with
  | nil =>
      rw [List.flatMap_nil, List.append_nil]
      exact hstate
  | cons part parts ih =>
      rw [List.foldl_cons, List.flatMap_cons, ← List.append_assoc]
      exact ih (lists_scanDirective hstate part)

/-- The results are the pairs of all parts, each once. -/
theorem extractCspDomains_eq (csp : List Char) :
    extractCspDomains psl properties csp =
      ((csp.splitOn ';').flatMap directivePairs).eraseDups.map (withRootDomain psl) := by
  have hstart : CspScan.Lists psl ⟨[], []⟩ [] := ⟨rfl, rfl⟩
  exact (lists_foldl_scanDirective hstart (csp.splitOn ';')).results

end

end DomainStatus.Fetch
