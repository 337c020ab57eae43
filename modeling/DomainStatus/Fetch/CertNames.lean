import DomainStatus.Lib.Text
import DomainStatus.Storage.Models

/-!
# The names of a certificate

The step of `build_persisted_url_record` in `src/fetch/record/builder.rs` that compares the host of
a page with the names of its certificate. Read `certIsMismatched_eq_some_false_iff` first: the names
that cover a host for the code are those of `NamesHost`, and the name under which the host would be
a wildcard's own base.
-/

namespace DomainStatus.Fetch

open Storage Text

/-- A subject alternative name covers the host. -/
def matchesSan (domain san : List Char) : Bool :=
  match san.dropPrefix? "*.".toList with
  | some wildcardBase =>
      domain == wildcardBase ||
        (domain.dropSuffix? wildcardBase).any fun lead =>
          lead.getLast? == some '.' && !lead.dropLast.contains '.'
  | none => domain == san

/-- The values of `CN` in a subject such as `CN=example.com, O=Org`. -/
def cnValues (subject : List Char) : List (List Char) :=
  ((subject.splitOn ',').filterMap fun part => (trimChars part).dropPrefix? "CN=".toList).map
    trimChars

/-- `cert_is_mismatched` of a record: known for a response over TLS whose URL has a host. -/
def certIsMismatched (tlsVersion : Option TlsVersion) (domain : List Char)
    (sans : List (List Char)) (subject : Option (List Char)) : Option Bool :=
  if domain ≠ [] ∧ tlsVersion.isSome then
    let cn := subject.getD []
    some (!(sans.any (matchesSan domain)) && !((cnValues cn).any fun value => value == domain))
  else none

/-- The names are equal without regard to the case of ASCII letters. -/
def SameIgnoringCase (left right : List Char) : Prop :=
  left.map Char.toLower = right.map Char.toLower

/-- A name of the certificate covers the host, where `same` compares names: the host itself, or a
wildcard for one label of it. -/
def NamesHost (same : List Char → List Char → Prop) (host : List Char) (sans : List (List Char))
    (subject : List Char) : Prop :=
  (∃ san ∈ sans, same san host) ∨ (∃ value ∈ cnValues subject, same value host) ∨
    ∃ san ∈ sans, ∃ label base, label ≠ [] ∧ '.' ∉ label ∧ same san ('*' :: '.' :: base) ∧
      host = label ++ '.' :: base

/-- A name is the host behind `*.`, or behind `*` when the host starts with a dot. -/
def WildcardOfHost (host : List Char) (sans : List (List Char)) : Prop :=
  ∃ base, '*' :: '.' :: base ∈ sans ∧ (host = base ∨ host = '.' :: base)

variable {host san base : List Char} {sans : List (List Char)} {subject : Option (List Char)}
  {version : TlsVersion}

/-- What is left of a text behind a lead. -/
theorem dropPrefix_eq_some_iff {text lead rest : List Char} :
    text.dropPrefix? lead = some rest ↔ text = lead ++ rest := by
  rw [List.dropPrefix?_eq_some_iff]
  constructor
  · intro h
    obtain ⟨front, rfl, hfront⟩ := h
    rw [eq_of_beq hfront]
  · intro h
    exact ⟨lead, h, beq_self_eq_true lead⟩

/-- What is left of a text in front of a tail. -/
theorem dropSuffix_eq_some_iff {text lead tail : List Char} :
    text.dropSuffix? tail = some lead ↔ text = lead ++ tail := by
  rw [List.dropSuffix?_eq_some_iff]
  constructor
  · intro h
    obtain ⟨back, rfl, hback⟩ := h
    rw [eq_of_beq hback]
  · intro h
    exact ⟨tail, h, beq_self_eq_true tail⟩

/-- A wildcard covers its own base, and what has one label more, which may be empty. -/
theorem matchesSan_wildcard_iff :
    matchesSan host ('*' :: '.' :: base) = true ↔
      host = base ∨ ∃ label, '.' ∉ label ∧ host = label ++ '.' :: base := by
  have hdrop : ('*' :: '.' :: base).dropPrefix? "*.".toList = some base :=
    dropPrefix_eq_some_iff.mpr rfl
  unfold matchesSan
  rw [hdrop]
  simp only [Bool.or_eq_true, beq_iff_eq, Option.any_eq_true, Bool.and_eq_true,
    Bool.not_eq_true', dropSuffix_eq_some_iff]
  refine or_congr_right ?_
  constructor
  · intro h
    obtain ⟨lead, rfl, hdot, hlabel⟩ := h
    refine ⟨lead.dropLast, ?_, ?_⟩
    · simpa using hlabel
    · conv_lhs => rw [← List.dropLast_append_getLast? '.' hdot]
      simp
  · intro h
    obtain ⟨label, hlabel, rfl⟩ := h
    exact ⟨label ++ ['.'], by simp, by simp, by simpa using hlabel⟩

/-- Any other name covers itself only. -/
theorem matchesSan_iff :
    matchesSan host san = true ↔
      san = host ∨ ∃ base, san = '*' :: '.' :: base ∧
        (host = base ∨ ∃ label, '.' ∉ label ∧ host = label ++ '.' :: base) := by
  cases hdrop : san.dropPrefix? "*.".toList with
  | some base =>
      have hsan : san = '*' :: '.' :: base := dropPrefix_eq_some_iff.mp hdrop
      subst hsan
      rw [matchesSan_wildcard_iff]
      constructor
      · intro h
        exact Or.inr ⟨base, rfl, h⟩
      · intro h
        rcases h with rfl | ⟨other, heq, h⟩
        · exact Or.inr ⟨['*'], by simp, rfl⟩
        · rw [← (List.cons.inj (List.cons.inj heq).2).2] at h
          exact h
  | none =>
      unfold matchesSan
      rw [hdrop, beq_iff_eq, eq_comm]
      refine (or_iff_left ?_).symm
      rintro ⟨base, rfl, -⟩
      rw [dropPrefix_eq_some_iff.mpr (show '*' :: '.' :: base = "*.".toList ++ base from rfl)]
        at hdrop
      cases hdrop

/-- The certificate is no mismatch for the code when a name covers the host in the same case, or
the host is the base of a wildcard. -/
theorem certIsMismatched_eq_some_false_iff (hhost : host ≠ []) :
    certIsMismatched (some version) host sans subject = some false ↔
      NamesHost Eq host sans (subject.getD []) ∨ WildcardOfHost host sans := by
  have hmatches : certIsMismatched (some version) host sans subject = some false ↔
      (∃ san ∈ sans, matchesSan host san = true) ∨
        ∃ value ∈ cnValues (subject.getD []), value = host := by
    unfold certIsMismatched
    rw [if_pos ⟨hhost, rfl⟩, Option.some.injEq, Bool.and_eq_false_iff, Bool.not_eq_false',
      Bool.not_eq_false', List.any_eq_true, List.any_eq_true]
    simp only [beq_iff_eq]
  rw [hmatches]
  simp only [matchesSan_iff]
  constructor
  · intro h
    rcases h with ⟨san, hmem, heq | ⟨base, rfl, heq | ⟨label, hdot, heq⟩⟩⟩ | hvalue
    · exact Or.inl (Or.inl ⟨san, hmem, heq⟩)
    · exact Or.inr ⟨base, hmem, Or.inl heq⟩
    · rcases List.eq_nil_or_concat label with rfl | hlabel
      · exact Or.inr ⟨base, hmem, Or.inr heq⟩
      · refine Or.inl (Or.inr (Or.inr ⟨_, hmem, label, base, ?_, hdot, rfl, heq⟩))
        obtain ⟨front, last, rfl⟩ := hlabel
        simp
    · exact Or.inl (Or.inr (Or.inl hvalue))
  · intro h
    rcases h with (⟨san, hmem, heq⟩ | hvalue | ⟨san, hmem, label, base, -, hdot, rfl, heq⟩) |
      ⟨base, hmem, heq | heq⟩
    · exact Or.inl ⟨san, hmem, Or.inl heq⟩
    · exact Or.inr hvalue
    · exact Or.inl ⟨_, hmem, Or.inr ⟨base, rfl, Or.inr ⟨label, hdot, heq⟩⟩⟩
    · exact Or.inl ⟨_, hmem, Or.inr ⟨base, rfl, Or.inl heq⟩⟩
    · exact Or.inl ⟨_, hmem, Or.inr ⟨base, rfl, Or.inr ⟨[], List.not_mem_nil, heq⟩⟩⟩

/-- A name that covers the host in the same case covers it without regard to case. -/
theorem namesHost_ignoring_case {subject : List Char} (h : NamesHost Eq host sans subject) :
    NamesHost SameIgnoringCase host sans subject := by
  rcases h with ⟨san, hmem, rfl⟩ | ⟨value, hmem, rfl⟩ |
    ⟨san, hmem, label, base, hne, hdot, rfl, heq⟩
  · exact Or.inl ⟨_, hmem, rfl⟩
  · exact Or.inr (Or.inl ⟨_, hmem, rfl⟩)
  · exact Or.inr (Or.inr ⟨_, hmem, label, base, hne, hdot, rfl, heq⟩)

/-- The column follows the rule of one label exactly if every wildcard of the host itself stands
beside a name that covers the host, and the names that cover the host in another case only stand
beside one that covers it as it is written, or beside a wildcard of the host itself. -/
theorem cert_is_mismatched_iff (version : TlsVersion) (host : List Char) (hhost : host ≠ [])
    (sans : List (List Char)) (subject : Option (List Char)) :
    (certIsMismatched (some version) host sans subject = some false ↔
      NamesHost SameIgnoringCase host sans (subject.getD [])) ↔
      (WildcardOfHost host sans → NamesHost SameIgnoringCase host sans (subject.getD [])) ∧
        (NamesHost SameIgnoringCase host sans (subject.getD []) →
          NamesHost Eq host sans (subject.getD []) ∨ WildcardOfHost host sans) := by
  rw [certIsMismatched_eq_some_false_iff hhost]
  constructor
  · intro h
    exact ⟨fun hwildcard => h.mp (Or.inr hwildcard), h.mpr⟩
  · intro h
    obtain ⟨hwildcard, hnames⟩ := h
    refine ⟨fun hcode => ?_, hnames⟩
    rcases hcode with hexact | hbase
    · exact namesHost_ignoring_case hexact
    · exact hwildcard hbase

/-- A wildcard covers a host one label below it. -/
theorem cert_is_mismatched_www :
    "www.a.test".toList ≠ [] ∧
      ((certIsMismatched (some .tls13) "www.a.test".toList ["*.a.test".toList] none = some false ↔
        NamesHost SameIgnoringCase "www.a.test".toList ["*.a.test".toList] []) ↔
        (WildcardOfHost "www.a.test".toList ["*.a.test".toList] →
            NamesHost SameIgnoringCase "www.a.test".toList ["*.a.test".toList] []) ∧
          (NamesHost SameIgnoringCase "www.a.test".toList ["*.a.test".toList] [] →
            NamesHost Eq "www.a.test".toList ["*.a.test".toList] [] ∨
              WildcardOfHost "www.a.test".toList ["*.a.test".toList])) :=
  ⟨by decide, cert_is_mismatched_iff .tls13 _ (by decide) _ none⟩

/-- The wildcard of a host covers the host itself for the code. -/
theorem cert_wildcard_covers_base :
    ¬∀ (version : TlsVersion) (host : List Char), host ≠ [] → host.map Char.toLower = host →
      ∀ (sans : List (List Char)) (subject : Option (List Char)),
        certIsMismatched (some version) host sans subject = some false ↔
          NamesHost SameIgnoringCase host sans (subject.getD []) := by
  intro h
  have hcode : certIsMismatched (some .tls13) "a.test".toList ["*.a.test".toList] none =
      some false := by
    decide
  have hnames :=
    (h .tls13 "a.test".toList (by decide) (by decide) ["*.a.test".toList] none).mp hcode
  rcases hnames with ⟨san, hmem, hsame⟩ | ⟨value, hmem, -⟩ |
    ⟨san, hmem, label, base, hne, -, hsame, hhost⟩
  · rw [List.mem_singleton.mp hmem] at hsame
    revert hsame
    unfold SameIgnoringCase
    decide
  · revert hmem
    have hnone : cnValues ((none : Option (List Char)).getD []) = [] := by decide
    rw [hnone]
    exact List.not_mem_nil
  · -- The host has as many characters as the wildcard's base, and not one label more.
    rw [List.mem_singleton.mp hmem] at hsame
    have hbase := congrArg List.length hsame
    have hlength := congrArg List.length hhost
    have hpos := List.length_pos_iff.mpr hne
    simp only [List.length_map, List.length_cons, List.length_append] at hbase hlength
    have hsix : "a.test".toList.length = 6 := by decide
    have height : "*.a.test".toList.length = 8 := by decide
    omega

end DomainStatus.Fetch
