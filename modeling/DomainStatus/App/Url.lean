import DomainStatus.Lib.ByteOffsets
import DomainStatus.Security.UrlValidation

/-!
# The admission of a URL

`validate_and_normalize_url` of `src/app/url.rs`. An outer result of `none` stands for a panic of
the slice in a log line. Read `validate_eq_none_iff` and `validate_eq_some_iff` first: they say when
the function panics and what it admits.
-/

namespace DomainStatus.App

open Security Text

/-- `MAX_URL_LENGTH`, which counts bytes. -/
def maxUrlLength : ℕ := 2048

/-- The argument `&text[..50.min(text.len())]` of `warn!`. It is evaluated only where warnings are
logged. -/
def warnPreview (warnEnabled : Bool) (text : List Char) : Option Unit :=
  if warnEnabled then (slice text 0 (min 50 (len text))).map fun _ => () else some ()

/-- The URL with `https://` in front of it, unless a `://` is in it. -/
def normalize (url : List Char) : List Char :=
  if contains url "://".toList then url else "https://".toList ++ url

/-- A URL that is too long or that no scan may fetch is rejected with `some none`. A panic is
`none`. -/
def validateAndNormalizeUrl (U : UrlCrate) (warnEnabled : Bool) (url : List Char) :
    Option (Option (List Char)) :=
  if maxUrlLength < len url then do
    warnPreview warnEnabled url
    return none
  else
    let normalized := normalize url
    if maxUrlLength < len normalized then do
      warnPreview warnEnabled normalized
      return none
    else
      match U.parse (String.ofList normalized) with
      | some parsed =>
          if U.scheme parsed = "http" ∨ U.scheme parsed = "https" then return some normalized
          else return none
      | none => return none

/-- The text parses as an `http` or `https` URL. -/
def ParsesAsHttp (U : UrlCrate) (text : List Char) : Prop :=
  ∃ parsed, U.parse (String.ofList text) = some parsed ∧
    (U.scheme parsed = "http" ∨ U.scheme parsed = "https")

/-! ## Panics -/

section Panics

variable {U : UrlCrate} {warnEnabled : Bool} {url text : List Char}

/-- The preview panics when it is asked for and cuts a character. -/
theorem warnPreview_eq_none_iff (hlong : maxUrlLength < len text) :
    warnPreview warnEnabled text = none ↔ warnEnabled = true ∧ isCharBoundary text 50 = false := by
  have hmin : min 50 (len text) = 50 := Nat.min_eq_left (by unfold maxUrlLength at hlong; omega)
  cases warnEnabled with
  | false => simp [warnPreview]
  | true => simp [warnPreview, hmin, slice]

/-- A rejection with a preview panics when the preview does. -/
theorem warnPreview_bind_eq_none_iff (hlong : maxUrlLength < len text) :
    ((warnPreview warnEnabled text).bind fun _ => some (none : Option (List Char))) = none ↔
      warnEnabled = true ∧ isCharBoundary text 50 = false := by
  rw [← warnPreview_eq_none_iff hlong]
  cases warnPreview warnEnabled text with
  | none => exact iff_of_true rfl rfl
  | some seen => exact iff_of_false (by simp) (by simp)

/-- The function panics where the preview of a text that is too long ends inside of a character. -/
theorem validate_eq_none_iff :
    validateAndNormalizeUrl U warnEnabled url = none ↔
      warnEnabled = true ∧
        (maxUrlLength < len url ∧ isCharBoundary url 50 = false ∨
          len url ≤ maxUrlLength ∧ maxUrlLength < len (normalize url) ∧
            isCharBoundary (normalize url) 50 = false) := by
  simp only [validateAndNormalizeUrl, Option.bind_eq_bind, pure]
  by_cases hlong : maxUrlLength < len url
  · have hnot : ¬len url ≤ maxUrlLength := Nat.not_le.mpr hlong
    rw [if_pos hlong, warnPreview_bind_eq_none_iff hlong]
    simp only [hlong, hnot, true_and, false_and, or_false]
  · have hfits : len url ≤ maxUrlLength := Nat.not_lt.mp hlong
    rw [if_neg hlong]
    by_cases hlonger : maxUrlLength < len (normalize url)
    · rw [if_pos hlonger, warnPreview_bind_eq_none_iff hlonger]
      simp only [hlong, hfits, hlonger, true_and, false_and, false_or]
    · rw [if_neg hlonger]
      refine iff_of_false ?_ (by simp [hlong, hlonger])
      split
      · split <;> simp
      · simp

/-- A rejection never returns a URL. -/
theorem warnPreview_bind_ne {result : List Char} :
    ((warnPreview warnEnabled text).bind fun _ => some (none : Option (List Char))) ≠
      some (some result) := by
  cases warnPreview warnEnabled text with
  | none => simp
  | some seen => simp

/-- What the function admits is the normalized URL, if it fits and parses as it should. -/
theorem validate_eq_some_iff {result : List Char} :
    validateAndNormalizeUrl U warnEnabled url = some (some result) ↔
      len url ≤ maxUrlLength ∧ result = normalize url ∧ len result ≤ maxUrlLength ∧
        ParsesAsHttp U result := by
  simp only [validateAndNormalizeUrl, Option.bind_eq_bind, pure]
  by_cases hlong : maxUrlLength < len url
  · rw [if_pos hlong]
    exact iff_of_false warnPreview_bind_ne fun h => absurd hlong (Nat.not_lt.mpr h.1)
  · rw [if_neg hlong]
    by_cases hlonger : maxUrlLength < len (normalize url)
    · rw [if_pos hlonger]
      refine iff_of_false warnPreview_bind_ne fun h => ?_
      obtain ⟨-, rfl, hfits, -⟩ := h
      exact absurd hlonger (Nat.not_lt.mpr hfits)
    · rw [if_neg hlonger]
      constructor
      · intro h
        cases hparsed : U.parse (String.ofList (normalize url)) with
        | some parsed =>
            rw [hparsed] at h
            dsimp only at h
            split at h
            case isTrue hscheme =>
              cases h
              exact ⟨Nat.not_lt.mp hlong, rfl, Nat.not_lt.mp hlonger, parsed, hparsed, hscheme⟩
            case isFalse => cases h
        | none =>
            rw [hparsed] at h
            cases h
      · intro h
        obtain ⟨-, rfl, -, parsed, hparsed, hscheme⟩ := h
        simp only [hparsed, if_pos hscheme]

/-- A text with `://` is left as it is. -/
theorem normalize_of_contains (h : contains url "://".toList = true) : normalize url = url :=
  if_pos h

/-- Another text gets `https://`. -/
theorem normalize_of_not_contains (h : contains url "://".toList = false) :
    normalize url = "https://".toList ++ url :=
  if_neg (by rw [h]; exact Bool.false_ne_true)

/-- The bytes that are put in front. -/
theorem len_https : len "https://".toList = 8 := rfl

/-- The text has a `://` now. -/
theorem contains_normalize (url : List Char) : contains (normalize url) "://".toList = true := by
  cases h : contains url "://".toList with
  | true => rwa [normalize_of_contains h]
  | false =>
      rw [normalize_of_not_contains h, contains_iff]
      exact ⟨"https".toList, url, rfl⟩

end Panics

/-- Where the URL is too long, its preview does not end inside of a character. With `https://` in
front, the preview ends at byte 42 of the URL. -/
structure PreviewsWhole (url : List Char) : Prop where
  long : maxUrlLength < len url → isCharBoundary url 50 = true
  longWithScheme : contains url "://".toList = false → len url ≤ maxUrlLength →
    maxUrlLength < len url + 8 → isCharBoundary url 42 = true

/-- With `https://` in front, the preview ends at byte 42 of the URL. -/
theorem normalize_cut_iff {url : List Char} :
    (maxUrlLength < len (normalize url) ∧ isCharBoundary (normalize url) 50 = false ∧
        len url ≤ maxUrlLength) ↔
      contains url "://".toList = false ∧ len url ≤ maxUrlLength ∧ maxUrlLength < len url + 8 ∧
        isCharBoundary url 42 = false := by
  cases hscheme : contains url "://".toList with
  | true =>
      rw [normalize_of_contains hscheme]
      refine iff_of_false (fun h => ?_) (fun h => absurd h.1 Bool.true_eq_false_eq_False)
      exact absurd h.1 (Nat.not_lt.mpr h.2.2)
  | false =>
      have hcut : isCharBoundary ("https://".toList ++ url) (len "https://".toList + 42) =
          isCharBoundary url 42 := isCharBoundary_append
      rw [normalize_of_not_contains hscheme, len_append, len_https, Nat.add_comm 8]
      rw [len_https] at hcut
      rw [hcut]
      exact ⟨fun h => ⟨rfl, h.2.2, h.1, h.2.1⟩, fun h => ⟨h.2.2.1, h.2.2.2, h.2.1⟩⟩

/-- When no preview cuts a character. -/
theorem previewsWhole_iff {url : List Char} :
    PreviewsWhole url ↔
      ¬(maxUrlLength < len url ∧ isCharBoundary url 50 = false ∨
        len url ≤ maxUrlLength ∧ maxUrlLength < len (normalize url) ∧
          isCharBoundary (normalize url) 50 = false) := by
  constructor
  · intro h hpanic
    rcases hpanic with ⟨hlong, hcut⟩ | ⟨hfits, hlong, hcut⟩
    · rw [h.long hlong] at hcut
      cases hcut
    · obtain ⟨hscheme, -, hlonger, hcut⟩ := normalize_cut_iff.mp ⟨hlong, hcut, hfits⟩
      rw [h.longWithScheme hscheme hfits hlonger] at hcut
      cases hcut
  · intro h
    refine ⟨fun hlong => ?_, fun hscheme hfits hlonger => ?_⟩
    · by_contra hcut
      exact h (Or.inl ⟨hlong, Bool.eq_false_iff.mpr hcut⟩)
    · by_contra hcut
      obtain ⟨hlong, hcut, -⟩ :=
        normalize_cut_iff.mpr ⟨hscheme, hfits, hlonger, Bool.eq_false_iff.mpr hcut⟩
      exact h (Or.inr ⟨hfits, hlong, hcut⟩)

/-- URL admission panics only in the preview of a URL that is too long. -/
theorem validate_and_normalize_url_total_iff (U : UrlCrate) (warnEnabled : Bool) (url : List Char) :
    (validateAndNormalizeUrl U warnEnabled url ≠ none ∧
      ∀ result, validateAndNormalizeUrl U warnEnabled url = some (some result) →
        len result ≤ maxUrlLength) ↔
    (warnEnabled = true → PreviewsWhole url) := by
  rw [ne_eq, validate_eq_none_iff, previewsWhole_iff, not_and]
  exact and_iff_left fun result h => (validate_eq_some_iff.mp h).2.2.1

/-- A path of Latin letters with an accent where the preview ends. -/
def accentedUrl : List Char :=
  List.replicate 49 'a' ++ 'é' :: List.replicate 2000 'a'

/-- A long URL with a two-byte character at its 50th byte panics. -/
theorem validate_and_normalize_url_panics :
    ¬∀ (U : UrlCrate) (warnEnabled : Bool) (url : List Char),
      validateAndNormalizeUrl U warnEnabled url ≠ none ∧
        ∀ result, validateAndNormalizeUrl U warnEnabled url = some (some result) →
          len result ≤ maxUrlLength := by
  intro h
  have hlong : maxUrlLength < len accentedUrl := by
    rw [accentedUrl, len_append, len_cons, len_replicate, len_replicate]
    decide
  have hcut : isCharBoundary accentedUrl 50 = false := by decide
  exact (h exampleUrlCrate true accentedUrl).1
    (validate_eq_none_iff.mpr ⟨rfl, Or.inl ⟨hlong, hcut⟩⟩)

/-! ## Schemes -/

/-- The text starts with a scheme and `://`. -/
def startsWithScheme : List Char → Bool
  | [] => false
  | first :: rest =>
      first.isAlpha && "://".toList.isPrefixOf (rest.dropWhile isSchemeChar)

/-- A text that starts with a scheme has `://`. -/
theorem contains_of_startsWithScheme {url : List Char} (h : startsWithScheme url = true) :
    contains url "://".toList = true := by
  cases url with
  | nil => cases h
  | cons first rest =>
      have hlead := List.isPrefixOf_iff_prefix.mp (Bool.and_eq_true_iff.mp h).2
      have htail : rest.dropWhile isSchemeChar <:+ first :: rest :=
        (List.dropWhile_suffix isSchemeChar).trans (List.suffix_cons first rest)
      exact contains_iff.mpr (List.infix_iff_prefix_suffix.mpr ⟨_, hlead, htail⟩)

/-- Whatever parses behind `https://` has the scheme `https`. -/
def HttpsParses (U : UrlCrate) : Prop :=
  ∀ rest parsed, U.parse (String.ofList ("https://".toList ++ rest)) = some parsed →
    U.scheme parsed = "https"

/-- What normalization is for: the scheme is added where it is missing and only there, and to
normalize again changes nothing. -/
structure NormalizesScheme (U : UrlCrate) (warnEnabled : Bool) (url : List Char) : Prop where
  missing : startsWithScheme url = false →
    (U.parse (String.ofList ("https://".toList ++ url))).isSome = true →
    validateAndNormalizeUrl U warnEnabled url = some (some ("https://".toList ++ url))
  present : startsWithScheme url = true →
    (validateAndNormalizeUrl U warnEnabled url = some (some url) ↔ ParsesAsHttp U url)
  again : ∀ result, validateAndNormalizeUrl U warnEnabled url = some (some result) →
    validateAndNormalizeUrl U warnEnabled result = some (some result)

/-- A URL that was returned is returned again. -/
theorem validate_again {U : UrlCrate} {warnEnabled : Bool} {url result : List Char}
    (h : validateAndNormalizeUrl U warnEnabled url = some (some result)) :
    validateAndNormalizeUrl U warnEnabled result = some (some result) := by
  obtain ⟨-, rfl, hfits, hparses⟩ := validate_eq_some_iff.mp h
  have hsame : normalize (normalize url) = normalize url :=
    normalize_of_contains (contains_normalize url)
  exact validate_eq_some_iff.mpr ⟨hfits, hsame.symm, hfits, hparses⟩

/-- A URL of at most 2040 bytes is normalized as it should be, unless it has no scheme but a `://`
elsewhere and would parse with `https://` in front. -/
theorem validate_and_normalize_url_scheme_iff (U : UrlCrate) (hhttps : HttpsParses U)
    (warnEnabled : Bool) (url : List Char) (hlen : len url ≤ maxUrlLength - 8) :
    NormalizesScheme U warnEnabled url ↔
      ¬(startsWithScheme url = false ∧ contains url "://".toList = true ∧
        (U.parse (String.ofList ("https://".toList ++ url))).isSome = true) := by
  have hfits : len url ≤ maxUrlLength := hlen.trans (Nat.sub_le _ _)
  constructor
  · intro h hmissed
    obtain ⟨hscheme, hcontains, hparses⟩ := hmissed
    obtain ⟨-, hsame, -⟩ := validate_eq_some_iff.mp (h.missing hscheme hparses)
    have hlonger := congrArg len hsame
    rw [normalize_of_contains hcontains, len_append, len_https] at hlonger
    omega
  · intro h
    refine ⟨fun hscheme hparses => ?_, fun hscheme => ?_, fun result => validate_again⟩
    · -- no `://` at all, so the scheme is added
      have hcontains : contains url "://".toList = false := by
        by_contra hcontains
        exact h ⟨hscheme, Bool.not_eq_false _ ▸ hcontains, hparses⟩
      obtain ⟨parsed, hparsed⟩ := Option.isSome_iff_exists.mp hparses
      have hroom : len ("https://".toList ++ url) ≤ maxUrlLength := by
        rw [len_append, len_https]
        have hmax : 8 ≤ maxUrlLength := by decide
        omega
      exact validate_eq_some_iff.mpr ⟨hfits, (normalize_of_not_contains hcontains).symm, hroom,
        parsed, hparsed, Or.inr (hhttps url parsed hparsed)⟩
    · have hsame := normalize_of_contains (contains_of_startsWithScheme hscheme)
      constructor
      · intro hresult
        exact (validate_eq_some_iff.mp hresult).2.2.2
      · intro hparses
        exact validate_eq_some_iff.mpr ⟨hfits, hsame.symm, hfits, hparses⟩

/-- The example crate parses these URLs. -/
theorem httpsParses_example : HttpsParses exampleUrlCrate := by
  intro rest parsed h
  obtain ⟨site, path⟩ := parsed
  change ExampleSite.parse (String.ofList ("https://".toList ++ rest)).toList = some _ at h
  rw [String.toList_ofList] at h
  have htext := ExampleSite.eq_root_of_parse h
  cases site with
  | secure => rfl
  | plain => simp [ExampleSite.root, ExampleSite.scheme, ExampleSite.name] at htext
  | metadata => simp [ExampleSite.root, ExampleSite.scheme, ExampleSite.name] at htext

/-- A host with a path gets the scheme. -/
theorem normalizesScheme_bare_host :
    NormalizesScheme exampleUrlCrate true "example.com/about".toList :=
  (validate_and_normalize_url_scheme_iff exampleUrlCrate httpsParses_example true
    "example.com/about".toList (by decide)).mpr fun h => absurd h.2.1 (by decide)

/-- A host with a URL in its query. -/
def queryUrl : List Char := "example.com/?u=http://x".toList

/-- A URL in a query is taken for a scheme. -/
theorem not_normalizesScheme_query_url :
    ¬∀ (U : UrlCrate), HttpsParses U → ∀ (warnEnabled : Bool) (url : List Char),
      len url ≤ maxUrlLength - 8 → NormalizesScheme U warnEnabled url := by
  intro h
  have hurl := h exampleUrlCrate httpsParses_example true queryUrl (by decide)
  have hsite : exampleUrlCrate.parse (String.ofList ("https://".toList ++ queryUrl)) =
      some (.secure, "?u=http://x".toList) :=
    ExampleSite.parse_root .secure "?u=http://x".toList
  have hmissing := hurl.missing (by decide) (by rw [hsite]; rfl)
  have hsame := (validate_eq_some_iff.mp hmissing).2.1
  exact absurd hsame (by decide)

end DomainStatus.App
