import DomainStatus.Fetch.CspDomains

/-!
# Written policies

Content security policies as a server writes them, and what `extractCspDomains` returns for each.
Read `hostTexts_render` first: a source has the host that it names and the texts in its path, or in
its scheme, that look like hosts.
-/

namespace DomainStatus.Fetch

open Text

/-! ## Sources -/

/-- Letters, digits and hyphens, with no hyphen at an end. -/
def IsLabel (label : List Char) : Prop :=
  label.head?.any Char.isAlphanum ∧ label.getLast?.any Char.isAlphanum ∧ ∀ c ∈ label, isLabelChar c

instance (label : List Char) : Decidable (IsLabel label) :=
  inferInstanceAs (Decidable (_ ∧ _ ∧ ∀ c ∈ label, isLabelChar c = true))

/-- The characters of nonces and hashes. -/
def isBase64Char (c : Char) : Bool :=
  c.isAlphanum || c == '+' || c == '/' || c == '-' || c == '_' || c == '='

/-- A source that names a host. Without a path the last text is empty. -/
structure HostSource where
  scheme : Option (List Char)
  wildcard : Bool
  labels : List (List Char)
  port : Option (List Char)
  path : List Char
  scheme_http : ∀ text ∈ scheme, text.map Char.toLower ∈ ["http".toList, "https".toList]
  two_labels : 2 ≤ labels.length
  labels_valid : ∀ label ∈ labels, IsLabel label
  port_valid : ∀ text ∈ port, text = ['*'] ∨ text ≠ [] ∧ ∀ c ∈ text, c.isDigit
  path_absolute : ∀ c ∈ path.head?, c = '/'
  path_clean : ∀ c ∈ path, isWhitespace c = false ∧ c ≠ ';'

namespace HostSource

/-- The labels of the host with their dots. -/
def host (source : HostSource) : List Char :=
  ['.'].intercalate source.labels

/-- The source as a policy writes it. -/
def render (source : HostSource) : List Char :=
  (source.scheme.elim [] fun text => text ++ "://".toList) ++
    ((if source.wildcard then "*.".toList else []) ++
      (source.host ++ ((source.port.elim [] fun text => ':' :: text) ++ source.path)))

end HostSource

/-- The algorithms of hash sources. -/
inductive HashAlgorithm where
  | sha256 | sha384 | sha512
  deriving DecidableEq

/-- The name of an algorithm in a hash source. -/
def HashAlgorithm.text : HashAlgorithm → List Char
  | sha256 => "sha256".toList
  | sha384 => "sha384".toList
  | sha512 => "sha512".toList

/-- A value of a directive. -/
inductive CspSource where
  | keyword (word : List Char) (valid : ∀ c ∈ word, isLabelChar c)
  | nonce (value : List Char) (valid : ∀ c ∈ value, isBase64Char c)
  | hash (algorithm : HashAlgorithm) (value : List Char) (valid : ∀ c ∈ value, isBase64Char c)
  | scheme (name : List Char) (valid : name.head?.any Char.isAlpha ∧ ∀ c ∈ name, isSchemeChar c)
  | host (source : HostSource)

namespace CspSource

/-- The text between single quotes. -/
def quoted (text : List Char) : List Char :=
  "'".toList ++ text ++ "'".toList

/-- The source as a policy writes it. -/
def render : CspSource → List Char
  | keyword word _ => quoted word
  | nonce value _ => quoted ("nonce-".toList ++ value)
  | hash algorithm value _ => quoted (algorithm.text ++ '-' :: value)
  | scheme name _ => name ++ [':']
  | host source => source.render

/-- The host of a source, and the texts in a path or a scheme that look like hosts. The host is
marked. -/
def entries : CspSource → List (Bool × List Char)
  | keyword _ _ | nonce _ _ | hash _ _ _ => []
  | scheme name _ => (hostTexts name).map fun text => (false, text)
  | host source => (true, source.host) :: (hostTexts source.path).map fun text => (false, text)

end CspSource

/-! ## Policies -/

/-- A directive with spaces around it and in front of each source. One without a name and sources
stands for nothing between two semicolons. -/
structure Directive where
  name : List Char
  sources : List (ℕ × CspSource)
  before : ℕ
  behind : ℕ
  name_valid : ∀ c ∈ name, isLabelChar c
  named : sources ≠ [] → name ≠ []

namespace Directive

/-- The sources, each behind one blank or more. -/
def renderSources (sources : List (ℕ × CspSource)) : List Char :=
  sources.flatMap fun (gap, source) => List.replicate (gap + 1) ' ' ++ source.render

/-- The first source and the others. -/
theorem renderSources_cons (gap : ℕ) (source : CspSource) (sources : List (ℕ × CspSource)) :
    renderSources ((gap, source) :: sources) =
      List.replicate (gap + 1) ' ' ++ (source.render ++ renderSources sources) := by
  rw [renderSources, List.flatMap_cons, List.append_assoc]
  rfl

/-- The directive as a policy writes it. -/
def render (directive : Directive) : List Char :=
  List.replicate directive.before ' ' ++ directive.name ++ renderSources directive.sources ++
    List.replicate directive.behind ' '

/-- The pairs of the host sources. -/
def hostPairs (directive : Directive) : List (String × String) :=
  directive.sources.filterMap fun (_, source) =>
    match source with
    | .host source => some (String.ofList directive.name, lowercased source.host)
    | _ => none

/-- The pairs of all texts that are hosts or look like them. Those of the host sources are
marked. -/
def entries (directive : Directive) : List (Bool × String × String) :=
  directive.sources.flatMap fun (_, source) =>
    source.entries.map fun (wanted, text) =>
      (wanted, String.ofList directive.name, lowercased text)

end Directive

/-- The value of the header. -/
def renderPolicy (policy : List Directive) : List Char :=
  [';'].intercalate (policy.map Directive.render)

/-- The directives of a policy with the hosts of their host sources. -/
def hostPairs (policy : List Directive) : List (String × String) :=
  policy.flatMap Directive.hostPairs

/-- The texts of a policy that the regex matches, from left to right. -/
def policyEntries (policy : List Directive) : List (Bool × String × String) :=
  policy.flatMap Directive.entries

variable {source : CspSource} {c : Char} {label rest : List Char} {labels : List (List Char)}

/-! ## Hosts of sources -/

/-- A label starts with a letter or a digit. -/
theorem IsLabel.exists_cons (h : IsLabel label) :
    ∃ c tail, label = c :: tail ∧ c.isAlphanum = true ∧ ∀ d ∈ tail, isLabelChar d = true := by
  obtain ⟨hfirst, -, hall⟩ := h
  obtain ⟨c, hhead, hc⟩ := (Option.any_eq_true _ _).mp hfirst
  obtain ⟨tail, rfl⟩ := List.head?_eq_some_iff.mp hhead
  exact ⟨c, tail, rfl, hc, fun d hd => hall d (List.mem_cons_of_mem _ hd)⟩

/-- Further labels, each behind a dot. -/
def dotted (labels : List (List Char)) : List Char :=
  labels.flatMap fun label => '.' :: label

/-- Behind a label its dot follows. -/
theorem dropWhile_label {tail : List Char} (htail : ∀ d ∈ tail, isLabelChar d = true)
    (labels : List (List Char)) :
    (tail ++ dotted labels).dropWhile isLabelChar = dotted labels := by
  rw [List.dropWhile_append_of_pos htail]
  cases labels with
  | nil => rfl
  | cons first others => exact List.dropWhile_cons_of_neg (by decide)

/-- A label behind a dot is read up to the next dot. -/
theorem first_dotted (h : IsLabel label) (labels : List (List Char)) :
    ((Regex.seq (.lit ['.']) labelRe).run (dotted (label :: labels))).head? =
      some ⟨[], dotted labels⟩ := by
  obtain ⟨c, tail, rfl, hc, htail⟩ := h.exists_cons
  have hlit : ((Regex.lit ['.']).run (dotted ((c :: tail) :: labels))).head? =
      some ⟨[], c :: (tail ++ dotted labels)⟩ :=
    rfl
  have hlabel : (labelRe.run (c :: (tail ++ dotted labels))).head? = some ⟨[], dotted labels⟩ := by
    rw [labelRe, Regex.run_set_seq hc, Regex.first_star_set, dropWhile_label htail]
  exact Regex.first_seq hlit hlabel

/-- Further labels are taken as a whole. -/
theorem first_star_dotted (h : ∀ label ∈ labels, IsLabel label) :
    ((Regex.star (.seq (.lit ['.']) labelRe)).run (dotted labels)).head? = some ⟨[], []⟩ := by
  induction labels with
  | nil => exact Regex.first_star_stop rfl
  | cons label labels ih =>
      have hfirst := first_dotted (h label List.mem_cons_self) labels
      have hlabels := ih fun other hother => h other (List.mem_cons_of_mem _ hother)
      rw [Regex.first_star_more hfirst, hlabels]
      · rfl
      · show (dotted labels).length < (dotted (label :: labels)).length
        rw [dotted, dotted, List.flatMap_cons, List.length_append, List.length_cons]
        omega

/-- A host is its first label and the others with their dots. -/
theorem intercalate_eq_dotted (label : List Char) (labels : List (List Char)) :
    ['.'].intercalate (label :: labels) = label ++ dotted labels := by
  induction labels generalizing label with
  | nil => simp [dotted]
  | cons next labels ih =>
      rw [List.intercalate_cons_cons, ih]
      simp [dotted]

/-- A host is read as a host. -/
theorem hostTexts_host (hcount : 2 ≤ labels.length) (h : ∀ label ∈ labels, IsLabel label) :
    hostTexts (['.'].intercalate labels) = [['.'].intercalate labels] := by
  obtain ⟨first, second, others, rfl⟩ :
      ∃ first second others, labels = first :: second :: others := by
    match labels, hcount with
    | first :: second :: others, _ => exact ⟨first, second, others, rfl⟩
  have htail : ∀ label ∈ second :: others, IsLabel label := fun label hlabel =>
    h label (List.mem_cons_of_mem _ hlabel)
  obtain ⟨c, tail, rfl, hc, hclean⟩ := (h first List.mem_cons_self).exists_cons
  have hdotted := Regex.first_seq
    (first_dotted (htail second List.mem_cons_self) others)
    (first_star_dotted fun label hlabel => htail label (List.mem_cons_of_mem _ hlabel))
  have hlabels : ((Regex.seq labelRe dottedLabelsRe).run
      (['.'].intercalate ((c :: tail) :: second :: others))).head? = some ⟨[], []⟩ := by
    rw [intercalate_eq_dotted, List.cons_append, run_first_label hc, dropWhile_label hclean]
    exact hdotted
  generalize ['.'].intercalate ((c :: tail) :: second :: others) = host at hlabels ⊢
  have hmatch : (fqdnRe.run host).head? = some ⟨[(2, host.take host.length)], []⟩ :=
    Regex.first_group hlabels
  rw [hostTexts_of_match hmatch, List.take_length, hostTexts_nil]
  rfl

/-- A path does not change the hosts in front of it. -/
theorem hostTexts_append_path {path : List Char} (hpath : ∀ c ∈ path.head?, c = '/')
    (lead : List Char) : hostTexts (lead ++ path) = hostTexts lead ++ hostTexts path := by
  cases path with
  | nil => rw [List.append_nil, hostTexts_nil, List.append_nil]
  | cons c path =>
      rw [hpath c rfl, hostTexts_append (by decide) (by decide),
        hostTexts_cons (by decide) (by decide)]

/-- A host source has its host, and what its path shows. -/
theorem HostSource.hostTexts_render (source : HostSource) :
    hostTexts source.render = source.host :: hostTexts source.path := by
  have hport : hostTexts (source.host ++
      ((source.port.elim [] fun text => ':' :: text) ++ source.path)) =
        source.host :: hostTexts source.path := by
    rw [← List.append_assoc, hostTexts_append_path source.path_absolute]
    suffices h : hostTexts (source.host ++ source.port.elim [] fun text => ':' :: text) =
        [source.host] by rw [h, List.singleton_append]
    have hhost := hostTexts_host source.two_labels source.labels_valid
    cases hport : source.port with
    | none =>
        show hostTexts (source.host ++ []) = [source.host]
        rw [List.append_nil]
        exact hhost
    | some text =>
        show hostTexts (source.host ++ ':' :: text) = [source.host]
        have hdot : '.' ∉ text := by
          rcases source.port_valid text hport with rfl | ⟨-, hdigits⟩
          · decide
          · exact fun hmem => absurd (hdigits '.' hmem) (by decide)
        rw [hostTexts_append (by decide) (by decide), hostTexts_of_no_dot hdot, List.append_nil]
        exact hhost
  have hwildcard : hostTexts ((if source.wildcard then "*.".toList else []) ++ (source.host ++
      ((source.port.elim [] fun text => ':' :: text) ++ source.path))) =
        source.host :: hostTexts source.path := by
    split
    · rw [hostTexts_wildcard, hport]
    · rw [List.nil_append, hport]
  rw [HostSource.render]
  cases hscheme : source.scheme with
  | none => exact hwildcard
  | some text =>
      have hdot : '.' ∉ text := by
        intro hmem
        have hlower : '.' ∈ text.map Char.toLower := List.mem_map.mpr ⟨'.', hmem, rfl⟩
        have hhttp := source.scheme_http text hscheme
        rw [List.mem_pair] at hhttp
        rcases hhttp with heq | heq
        · rw [heq] at hlower
          exact absurd hlower (by decide)
        · rw [heq] at hlower
          exact absurd hlower (by decide)
      exact (hostTexts_scheme hdot _).trans hwildcard

/-- Quotes add no dot. -/
theorem dot_not_mem_quoted {text : List Char} (h : '.' ∉ text) : '.' ∉ CspSource.quoted text := by
  rw [CspSource.quoted, List.mem_append, List.mem_append]
  rintro ((hquote | hmem) | hquote)
  · exact absurd hquote (by decide)
  · exact h hmem
  · exact absurd hquote (by decide)

/-- A source has its host and the texts that look like hosts. -/
theorem hostTexts_render (source : CspSource) :
    hostTexts source.render = source.entries.map Prod.snd := by
  cases source with
  | keyword word valid =>
      refine hostTexts_of_no_dot (dot_not_mem_quoted fun hmem => ?_)
      exact absurd (valid '.' hmem) (by decide)
  | nonce value valid =>
      refine hostTexts_of_no_dot (dot_not_mem_quoted fun hmem => ?_)
      rcases List.mem_append.mp hmem with hmem | hmem
      · exact absurd hmem (by decide)
      · exact absurd (valid '.' hmem) (by decide)
  | hash algorithm value valid =>
      refine hostTexts_of_no_dot (dot_not_mem_quoted fun hmem => ?_)
      rcases List.mem_append.mp hmem with hmem | hmem
      · cases algorithm <;> exact absurd hmem (by decide)
      · rcases List.mem_cons.mp hmem with heq | hmem
        · exact absurd heq (by decide)
        · exact absurd (valid '.' hmem) (by decide)
  | scheme name valid =>
      show hostTexts (name ++ ':' :: []) = ((hostTexts name).map fun text => (false, text)).map _
      rw [hostTexts_append (by decide) (by decide), hostTexts_nil, List.append_nil, List.map_map]
      exact (List.map_id _).symm
  | host source =>
      show hostTexts source.render =
        source.host :: ((hostTexts source.path).map fun text => (false, text)).map _
      rw [source.hostTexts_render, List.map_map]
      exact congrArg _ (List.map_id _).symm

/-! ## Texts of policies -/

/-- Neither whitespace nor a semicolon. -/
def IsClean (text : List Char) : Prop :=
  ∀ c ∈ text, isWhitespace c = false ∧ c ≠ ';'

/-- Two clean texts are clean together. -/
theorem IsClean.append {text other : List Char} (h : IsClean text) (hother : IsClean other) :
    IsClean (text ++ other) := by
  intro c hc
  rcases List.mem_append.mp hc with hc | hc
  · exact h c hc
  · exact hother c hc

instance (text : List Char) : Decidable (IsClean text) :=
  List.decidableBAll (fun c => isWhitespace c = false ∧ c ≠ ';') text

/-- Characters of labels are clean. -/
theorem clean_of_isLabelChar (h : isLabelChar c = true) : isWhitespace c = false ∧ c ≠ ';' := by
  have hall : ∀ n < 128, isLabelChar (Char.ofNat n) = true →
      isWhitespace (Char.ofNat n) = false ∧ Char.ofNat n ≠ ';' := by
    decide
  have hc := hall c.toNat (toNat_of_isLabelChar h)
  rw [Char.ofNat_toNat] at hc
  exact hc h

/-- Characters of nonces and hashes are clean. -/
theorem clean_of_isBase64Char (h : isBase64Char c = true) : isWhitespace c = false ∧ c ≠ ';' := by
  simp only [isBase64Char, Bool.or_eq_true, beq_iff_eq] at h
  rcases h with ((((h | rfl) | rfl) | rfl) | rfl) | rfl
  · exact clean_of_isLabelChar (isLabelChar_of_isAlphanum h)
  all_goals decide

/-- Characters of schemes are clean. -/
theorem clean_of_isSchemeChar (h : isSchemeChar c = true) : isWhitespace c = false ∧ c ≠ ';' := by
  simp only [isSchemeChar, Bool.or_eq_true, beq_iff_eq] at h
  rcases h with ((h | rfl) | rfl) | rfl
  · exact clean_of_isLabelChar (isLabelChar_of_isAlphanum h)
  all_goals decide

/-- So are they in upper case. -/
theorem clean_of_toLower (h : isLabelChar c.toLower = true) : isWhitespace c = false ∧ c ≠ ';' := by
  by_cases hc : c.toNat < 128
  · have hall : ∀ n < 128, isLabelChar (Char.ofNat n).toLower = true →
        isWhitespace (Char.ofNat n) = false ∧ Char.ofNat n ≠ ';' := by
      decide
    have hclean := hall c.toNat hc
    rw [Char.ofNat_toNat] at hclean
    exact hclean h
  · rw [toLower_of_not_ascii (Nat.not_lt.mp hc)] at h
    exact clean_of_isLabelChar h

/-- A host is clean. -/
theorem HostSource.clean_host (source : HostSource) : IsClean source.host := by
  intro c hc
  obtain ⟨first, others, hlabels⟩ : ∃ first others, source.labels = first :: others :=
    List.exists_cons_of_ne_nil fun hnil => by
      have hcount := source.two_labels
      rw [hnil] at hcount
      cases hcount
  have hvalid := source.labels_valid
  rw [HostSource.host, hlabels, intercalate_eq_dotted, List.mem_append] at hc
  rw [hlabels] at hvalid
  rcases hc with hc | hc
  · exact clean_of_isLabelChar ((hvalid first List.mem_cons_self).2.2 c hc)
  · obtain ⟨label, hlabel, hmem⟩ := List.mem_flatMap.mp hc
    rcases List.mem_cons.mp hmem with rfl | hmem
    · decide
    · exact clean_of_isLabelChar ((hvalid label (List.mem_cons_of_mem _ hlabel)).2.2 c hmem)

/-- A written host source is clean. -/
theorem HostSource.clean_render (source : HostSource) : IsClean source.render := by
  have hport : IsClean (source.port.elim [] fun text => ':' :: text) := by
    cases hport : source.port with
    | none => exact fun c hc => absurd hc List.not_mem_nil
    | some text =>
        intro c hc
        rcases List.mem_cons.mp hc with rfl | hc
        · decide
        · rcases source.port_valid text hport with rfl | ⟨-, hdigits⟩
          · rw [List.mem_singleton.mp hc]
            decide
          · have hlabel : isLabelChar c = true :=
              isLabelChar_of_isAlphanum (by rw [Char.isAlphanum, hdigits c hc, Bool.or_true])
            exact clean_of_isLabelChar hlabel
  have hwildcard : IsClean (if source.wildcard then "*.".toList else []) := by
    split <;> decide
  have hscheme : IsClean (source.scheme.elim [] fun text => text ++ "://".toList) := by
    cases hscheme : source.scheme with
    | none => exact fun c hc => absurd hc List.not_mem_nil
    | some text =>
        refine IsClean.append (fun c hc => clean_of_toLower ?_) (by decide)
        have hlower : c.toLower ∈ text.map Char.toLower := List.mem_map.mpr ⟨c, hc, rfl⟩
        have hletters : ∀ scheme ∈ ["http".toList, "https".toList], ∀ d ∈ scheme,
            isLabelChar d = true := by
          decide
        exact hletters _ (source.scheme_http text hscheme) _ hlower
  exact hscheme.append
    (hwildcard.append (source.clean_host.append (hport.append source.path_clean)))

/-- Quotes are clean. -/
theorem clean_quoted {text : List Char} (h : IsClean text) : IsClean (CspSource.quoted text) :=
  IsClean.append (IsClean.append (by decide) h) (by decide)

/-- Each written source is clean. -/
theorem clean_render (source : CspSource) : IsClean source.render := by
  cases source with
  | keyword word valid => exact clean_quoted fun c hc => clean_of_isLabelChar (valid c hc)
  | nonce value valid =>
      exact clean_quoted (IsClean.append (by decide) fun c hc => clean_of_isBase64Char (valid c hc))
  | hash algorithm value valid =>
      have halgorithm : IsClean algorithm.text := by cases algorithm <;> decide
      have hhyphen : IsClean ['-'] := by decide
      exact clean_quoted (halgorithm.append
        (hhyphen.append fun c hc => clean_of_isBase64Char (valid c hc)))
  | scheme name valid =>
      exact IsClean.append (fun c hc => clean_of_isSchemeChar (valid.2 c hc)) (by decide)
  | host source => exact source.clean_render

/-- No source is written as nothing. -/
theorem render_ne_nil (source : CspSource) : source.render ≠ [] := by
  cases source with
  | keyword | nonce | hash => exact List.append_ne_nil_of_right_ne_nil _ (by decide)
  | scheme => exact List.append_ne_nil_of_right_ne_nil _ (by decide)
  | host source =>
      intro hnil
      have hhosts := source.hostTexts_render
      have hrender : source.render = [] := hnil
      rw [hrender, hostTexts_nil] at hhosts
      cases hhosts

/-- Written sources do not end with a blank. -/
theorem trimEnd_renderSources (sources : List (ℕ × CspSource)) :
    trimEndMatches isWhitespace (Directive.renderSources sources) =
      Directive.renderSources sources := by
  induction sources with
  | nil => rfl
  | cons entry sources ih =>
      obtain ⟨gap, source⟩ := entry
      have hclean := clean_render source
      obtain ⟨c, tail, hrender⟩ := List.exists_cons_of_ne_nil (render_ne_nil source)
      rw [hrender] at hclean
      obtain ⟨hc, htail⟩ := List.forall_mem_cons.mp hclean
      rw [Directive.renderSources_cons, hrender, List.cons_append, trimEnd_append_cons hc.1,
        trimEnd_append fun d hd => (htail d hd).1, ih]

/-- Blanks are passed over. -/
theorem hostTexts_replicate (count : ℕ) (rest : List Char) :
    hostTexts (List.replicate count ' ' ++ rest) = hostTexts rest := by
  induction count with
  | zero => rfl
  | succ count ih =>
      rw [List.replicate_succ, List.cons_append, hostTexts_cons (by decide) (by decide), ih]

/-- The search sees the sources one by one. -/
theorem hostTexts_renderSources (sources : List (ℕ × CspSource)) :
    hostTexts (Directive.renderSources sources) =
      sources.flatMap fun (_, source) => source.entries.map Prod.snd := by
  induction sources with
  | nil => exact hostTexts_nil
  | cons entry sources ih =>
      obtain ⟨gap, source⟩ := entry
      rw [Directive.renderSources_cons, hostTexts_replicate, List.flatMap_cons, ← ih]
      show _ = source.entries.map Prod.snd ++ _
      rw [← hostTexts_render]
      cases sources with
      | nil =>
          show hostTexts (source.render ++ []) = hostTexts source.render ++ hostTexts []
          rw [List.append_nil, hostTexts_nil, List.append_nil]
      | cons next sources =>
          rw [Directive.renderSources_cons, List.replicate_succ, List.cons_append,
            hostTexts_append (by decide) (by decide), hostTexts_cons (by decide) (by decide)]

/-- Some blanks are a blank text. -/
theorem blank_replicate (count : ℕ) : Blank (List.replicate count ' ') := by
  intro c hc
  rw [(List.mem_replicate.mp hc).2]
  decide

/-- The name and the values come apart at the first space. -/
theorem splitDirective_of_none {part : List Char} (h : splitOnce ' ' (trimChars part) = none) :
    splitDirective part = (String.ofList (trimChars part), []) := by
  rw [splitDirective, h]

/-- The name of a directive ends at the first blank. -/
theorem splitDirective_of_some {part name values : List Char}
    (h : splitOnce ' ' (trimChars part) = some (name, values)) :
    splitDirective part = (String.ofList name, values) := by
  rw [splitDirective, h]

/-- A written directive is read under its name, with the hosts of its sources. -/
theorem splitDirective_render (directive : Directive) :
    ∃ values, splitDirective directive.render = (String.ofList directive.name, values) ∧
      hostTexts values = hostTexts (Directive.renderSources directive.sources) := by
  have hclean : ∀ c ∈ directive.name, isWhitespace c = false := fun c hc =>
    (clean_of_isLabelChar (directive.name_valid c hc)).1
  have hspace : ' ' ∉ directive.name := fun hmem => absurd (hclean ' ' hmem) (by decide)
  have htrim : trimChars directive.render =
      trimChars (directive.name ++ Directive.renderSources directive.sources) := by
    rw [Directive.render, trimChars_append_blank (blank_replicate _), List.append_assoc,
      blank_append_trimChars (blank_replicate _)]
  cases hsources : directive.sources with
  | nil =>
      have hname : trimChars directive.render = directive.name := by
        rw [htrim, hsources, Directive.renderSources, List.flatMap_nil, List.append_nil,
          trimChars_eq_self hclean]
      refine ⟨[], ?_, rfl⟩
      rw [splitDirective_of_none (hname ▸ splitOnce_eq_none hspace), hname]
  | cons entry sources =>
      obtain ⟨gap, source⟩ := entry
      have hne : directive.name ≠ [] :=
        directive.named (by rw [hsources]; exact List.cons_ne_nil _ _)
      refine ⟨List.replicate gap ' ' ++ (source.render ++ Directive.renderSources sources),
        splitDirective_of_some ?_, ?_⟩
      · rw [htrim, hsources, trimChars_append hne hclean, trimEnd_renderSources,
          Directive.renderSources_cons, List.replicate_succ, List.cons_append,
          splitOnce_append hspace]
      · rw [Directive.renderSources_cons, List.replicate_succ, List.cons_append]
        exact (hostTexts_cons (by decide) (by decide) _).symm

/-- The pairs that a written directive gives. -/
theorem directivePairs_render (directive : Directive) :
    directivePairs directive.render = directive.entries.map Prod.snd := by
  obtain ⟨values, hsplit, hvalues⟩ := splitDirective_render directive
  rw [directivePairs, hsplit, Directive.entries]
  dsimp only
  rw [hvalues, hostTexts_renderSources, List.map_flatMap, List.map_flatMap]
  refine List.flatMap_congr fun entry _ => ?_
  rw [List.map_map, List.map_map]
  rfl

/-- A written directive has no semicolon. -/
theorem semicolon_not_mem_render (directive : Directive) : ';' ∉ directive.render := by
  have hspaces : ∀ count, ';' ∉ List.replicate count ' ' := fun count hmem =>
    absurd (List.mem_replicate.mp hmem).2 (by decide)
  simp only [Directive.render, List.mem_append, not_or]
  refine ⟨⟨⟨hspaces _, fun hmem => ?_⟩, fun hmem => ?_⟩, hspaces _⟩
  · exact (clean_of_isLabelChar (directive.name_valid ';' hmem)).2 rfl
  · obtain ⟨⟨gap, source⟩, -, hmem⟩ := List.mem_flatMap.mp hmem
    rcases List.mem_append.mp hmem with hmem | hmem
    · exact hspaces _ hmem
    · exact (clean_render source ';' hmem).2 rfl

/-- The pairs that a written policy gives. -/
theorem flatMap_directivePairs (policy : List Directive) :
    ((renderPolicy policy).splitOn ';').flatMap directivePairs =
      (policyEntries policy).map Prod.snd := by
  cases policy with
  | nil =>
      show ([].splitOn ';').flatMap directivePairs = []
      rw [List.splitOn_nil, List.flatMap_singleton]
      have hnone : directivePairs [] = (hostTexts []).map fun host => ("", lowercased host) := rfl
      rw [hnone, hostTexts_nil, List.map_nil]
  | cons directive policy =>
      have hparts : ∀ part ∈ (directive :: policy).map Directive.render, ';' ∉ part := by
        intro part hpart
        obtain ⟨other, -, rfl⟩ := List.mem_map.mp hpart
        exact semicolon_not_mem_render other
      rw [renderPolicy, (splitOn_intercalate_iff (by simp)).mpr hparts, List.flatMap_map,
        policyEntries, List.map_flatMap]
      exact List.flatMap_congr fun other _ => directivePairs_render other

/-- The pairs of the host sources are the wanted ones. -/
theorem wantedKeys_policyEntries (policy : List Directive) :
    Distinct.wantedKeys (policyEntries policy) = hostPairs policy := by
  rw [policyEntries, Distinct.wantedKeys_flatMap, hostPairs]
  refine List.flatMap_congr fun directive _ => ?_
  rw [Directive.entries, Distinct.wantedKeys_flatMap, Directive.hostPairs]
  induction directive.sources with
  | nil => rfl
  | cons entry sources ih =>
      obtain ⟨gap, source⟩ := entry
      rw [List.flatMap_cons, ih, List.filterMap_cons]
      have hunwanted : ∀ (texts : List (List Char)) (entry : Bool × String × String),
          entry ∈ (texts.map fun text => (false, text)).map (fun (wanted, text) =>
            (wanted, String.ofList directive.name, lowercased text)) → entry.1 = false := by
        intro texts entry hentry
        rw [List.map_map] at hentry
        obtain ⟨text, -, rfl⟩ := List.mem_map.mp hentry
        rfl
      cases source with
      | keyword | nonce | hash => rfl
      | scheme name valid =>
          exact congrArg (· ++ _) (Distinct.wantedKeys_eq_nil (hunwanted (hostTexts name)))
      | host source =>
          have hpath := Distinct.wantedKeys_eq_nil (hunwanted (hostTexts source.path))
          show (String.ofList directive.name, lowercased source.host) ::
            Distinct.wantedKeys _ ++ _ = _
          rw [hpath]
          rfl

/-- The results are the pairs of the host sources exactly if each text that looks like a host and is
none has a pair that was there before, or has the pair of the next host source with a new one. -/
theorem extract_csp_domains_exact_iff (psl : Psl) (properties : CaseProperties)
    (policy : List Directive) :
    (extractCspDomains psl properties (renderPolicy policy)).map
        (fun (directive, fqdn, _) => (directive, fqdn)) = (hostPairs policy).eraseDups ↔
      Distinct.Foreseen [] (policyEntries policy) := by
  have hpairs : ∀ pairs : List (String × String),
      (pairs.map (withRootDomain psl)).map (fun (directive, fqdn, _) => (directive, fqdn)) =
        pairs := fun pairs => by
    rw [List.map_map]
    exact List.map_id pairs
  rw [extractCspDomains_eq, flatMap_directivePairs, hpairs, ← wantedKeys_policyEntries]
  exact Distinct.eraseDups_keys_iff _

/-- Without dots in its schemes and paths a policy has nothing to foresee. -/
theorem foreseen_of_no_dots {policy : List Directive}
    (h : ∀ directive ∈ policy, ∀ entry ∈ directive.sources,
      match entry.2 with
      | .scheme name _ => '.' ∉ name
      | .host source => '.' ∉ source.path
      | _ => True) :
    Distinct.Foreseen [] (policyEntries policy) := by
  apply Distinct.foreseen_of_wanted
  intro found hfound
  obtain ⟨directive, hdirective, hfound⟩ := List.mem_flatMap.mp hfound
  obtain ⟨⟨gap, source⟩, hentry, hfound⟩ := List.mem_flatMap.mp hfound
  obtain ⟨⟨wanted, text⟩, htext, rfl⟩ := List.mem_map.mp hfound
  have hsource := h directive hdirective (gap, source) hentry
  cases source with
  | keyword | nonce | hash => cases htext
  | scheme name valid =>
      have hnone : CspSource.entries (.scheme name valid) = [] :=
        congrArg (List.map _) (hostTexts_of_no_dot hsource)
      rw [hnone] at htext
      cases htext
  | host source =>
      have hhost : CspSource.entries (.host source) = [(true, source.host)] :=
        congrArg (fun texts => _ :: List.map _ texts) (hostTexts_of_no_dot hsource)
      rw [hhost, List.mem_singleton] at htext
      rw [htext]

/-- A script at a path of a host. -/
def scriptPolicy : List Directive :=
  [{  name := "script-src".toList
      sources := [(0, .host
        { scheme := some "https".toList
          wildcard := false
          labels := ["cdn".toList, "example".toList, "com".toList]
          port := none
          path := "/js/app.min.js".toList
          scheme_http := by simp
          two_labels := by decide
          labels_valid := by decide
          port_valid := by simp
          path_absolute := by simp
          path_clean := by decide })]
      before := 0
      behind := 0
      name_valid := by decide
      named := by simp }]

/-- The public suffix list for the host and for the name of the file, which is under the default
rule. -/
def scriptPsl : Psl where
  domainStr host :=
    if host = "cdn.example.com" then some "example.com"
    else if host = "app.min.js" then some "min.js"
    else none
  suffixStr host :=
    if host = "cdn.example.com" then some "com"
    else if host = "app.min.js" then some "js"
    else none

/-- The name of the file is listed as a host. -/
theorem csp_file_listed_as_host :
    renderPolicy scriptPolicy = "script-src https://cdn.example.com/js/app.min.js".toList ∧
      hostPairs scriptPolicy = [("script-src", "cdn.example.com")] ∧
      (extractCspDomains scriptPsl ⟨fun _ => false, fun _ => false⟩ (renderPolicy scriptPolicy)).map
          (fun (directive, fqdn, _) => (directive, fqdn)) =
        [("script-src", "cdn.example.com"), ("script-src", "app.min.js")] ∧
      (extractCspDomains scriptPsl ⟨fun _ => false, fun _ => false⟩ (renderPolicy scriptPolicy)).map
          (fun (directive, fqdn, _) => (directive, fqdn)) ≠ (hostPairs scriptPolicy).eraseDups := by
  decide +kernel

end DomainStatus.Fetch
