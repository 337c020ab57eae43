import DomainStatus.Fingerprint.Signals
import DomainStatus.Storage.Models

/-!
# The cookies of a response

Which cookies a response is stored with, after `src/fetch/cookies.rs`, and that they are the ones
that the server wrote, for the fingerprints as well. Read `foldl_readAttribute_rendered` first:
the loop over the parts of a header sees the attributes that a server wrote.
-/

namespace DomainStatus.Fetch

open Fingerprint Storage Text

/-- The cookies of a response as they are stored. -/
def extractCookieInfos (headers : HeaderMap) : List CookieInfo :=
  (parseAllSetCookies headers).map fun cookie =>
    { name := cookie.name
      secure := cookie.secure
      httpOnly := cookie.httpOnly
      sameSite := cookie.sameSite
      domain := cookie.domain
      path := cookie.path }

/-! ## Written cookies -/

/-- An attribute as a server may write it: with whitespace around its name and its value. Without a
name and a value it is an empty part. -/
structure Attribute where
  name : List Char
  value : Option (List Char)
  before : List Char
  beforeEquals : List Char
  behindEquals : List Char
  behind : List Char
  name_trimmed : trimChars name = name
  name_clean : ';' ∉ name ∧ '=' ∉ name
  value_trimmed : ∀ text ∈ value, trimChars text = text
  value_clean : ∀ text ∈ value, ';' ∉ text
  blanks : Blank before ∧ Blank beforeEquals ∧ Blank behindEquals ∧ Blank behind

namespace Attribute

/-- The attribute as the server writes it. -/
def render (attr : Attribute) : List Char :=
  match attr.value with
  | some value =>
      attr.before ++ attr.name ++ attr.beforeEquals ++
        '=' :: (attr.behindEquals ++ value ++ attr.behind)
  | none => attr.before ++ attr.name ++ attr.behind

/-- The attribute has this name, in any case. -/
def Is (attr : Attribute) (name : String) : Prop :=
  eqIgnoreAsciiCase (String.ofList attr.name) name = true

instance (attr : Attribute) (name : String) : Decidable (attr.Is name) :=
  inferInstanceAs (Decidable (_ = _))

end Attribute

/-- A cookie with its attributes, in the order in which they are written. -/
structure Cookie where
  name : List Char
  value : List Char
  attributes : List Attribute
  name_ne : name ≠ []
  name_trimmed : trimChars name = name
  name_clean : ';' ∉ name ∧ '=' ∉ name
  value_clean : ';' ∉ value

namespace Cookie

/-- The header as the server writes it. -/
def render (cookie : Cookie) : List Char :=
  [';'].intercalate
    ((cookie.name ++ '=' :: cookie.value) :: cookie.attributes.map Attribute.render)

/-- The attributes of one name. -/
def named (cookie : Cookie) (name : String) : List Attribute :=
  cookie.attributes.filter fun attr => attr.Is name

/-- The first `SameSite` value in lower case, if all of them are allowed. -/
def sameSite (cookie : Cookie) : Option String :=
  let sites := (cookie.named "SameSite").map fun attr =>
    attr.value.map fun value => toAsciiLowercase (String.ofList value)
  if ∀ site ∈ sites, site ∈ [some "strict", some "lax", some "none"] then sites.head?.join
  else none

/-- What is stored of the cookie. -/
def info (cookie : Cookie) : CookieInfo where
  name := String.ofList cookie.name
  secure := cookie.named "Secure" ≠ []
  httpOnly := cookie.named "HttpOnly" ≠ []
  sameSite := cookie.sameSite
  domain := (((cookie.named "Domain").getLast?.bind Attribute.value).filter fun value =>
    value ≠ []).map String.ofList
  path := ((cookie.named "Path").getLast?.bind Attribute.value).map String.ofList

end Cookie

/-- The characters that `HeaderValue::to_str` lets pass. -/
def isVisibleAscii (c : Char) : Bool :=
  (32 ≤ c.toNat && c.toNat < 127) || c.toNat == 9

/-- `HeaderValue::to_str` of a header with this text. -/
def headerText (text : List Char) : Option String :=
  if text.all isVisibleAscii then some (String.ofList text) else none

variable {state : CookieAttributes} {attrName : List Char} {attrValue : Option (List Char)}
  {attr : Attribute} {attrs : List Attribute}

/-! ## One attribute -/

/-- Names of attributes are compared without case. -/
theorem named_iff {attr : String} :
    named attrName attr = true ↔ attrName.map Char.toLower = attr.toList.map Char.toLower := by
  rw [named, eqIgnoreAsciiCase, String.toList_ofList, beq_iff_eq]

/-- A name is no other one than itself. -/
theorem named_other {attr other : String} (h : named attrName attr = true)
    (hne : attr.toList.map Char.toLower ≠ other.toList.map Char.toLower) :
    named attrName other = false := by
  rw [← Bool.not_eq_true, named_iff]
  exact fun hother => hne ((named_iff.mp h).symm.trans hother)

/-- What an attribute does to the flag `Secure`. -/
theorem absorbAttribute_secure :
    (absorbAttribute state attrName attrValue).secure =
      (state.secure || named attrName "secure") := by
  unfold absorbAttribute
  repeat' split
  all_goals simp_all

/-- What an attribute does to the flag `HttpOnly`. -/
theorem absorbAttribute_httpOnly :
    (absorbAttribute state attrName attrValue).httpOnly =
      (state.httpOnly || named attrName "httponly") := by
  unfold absorbAttribute
  split
  case isTrue hsecure => rw [named_other hsecure (by decide), Bool.or_false]
  case isFalse =>
    repeat' split
    all_goals simp_all

/-- What an attribute does to the domain. An empty domain is none. -/
theorem absorbAttribute_domain :
    (absorbAttribute state attrName attrValue).domain =
      if named attrName "domain" then
        (attrValue.filter fun value => value ≠ []).map String.ofList
      else state.domain := by
  by_cases hdomain : named attrName "domain" = true
  · rw [if_pos hdomain, absorbAttribute, named_other hdomain (by decide),
      named_other hdomain (by decide), named_other hdomain (by decide), hdomain]
    rfl
  · rw [if_neg hdomain]
    unfold absorbAttribute
    repeat' split
    all_goals simp_all

/-- What an attribute does to the path. -/
theorem absorbAttribute_path :
    (absorbAttribute state attrName attrValue).path =
      if named attrName "path" then attrValue.map String.ofList else state.path := by
  by_cases hpath : named attrName "path" = true
  · rw [if_pos hpath, absorbAttribute, named_other hpath (by decide),
      named_other hpath (by decide), named_other hpath (by decide),
      named_other hpath (by decide), hpath]
    rfl
  · rw [if_neg hpath]
    unfold absorbAttribute
    repeat' split
    all_goals simp_all

/-- The values of `SameSite` that are kept, in lower case. -/
def allowedSites : List (Option String) :=
  [some "strict", some "lax", some "none"]

/-- A name in lower case is compared with the lower case of the other. -/
theorem named_iff_lower {attr : String} (hattr : attr.toList.map Char.toLower = attr.toList) :
    named attrName attr = true ↔ toAsciiLowercase (String.ofList attrName) = attr := by
  rw [named_iff, hattr, toAsciiLowercase, String.toList_ofList]
  exact ⟨fun h => by rw [h, String.ofList_toList], fun h => by rw [← h, String.toList_ofList]⟩

/-- The value of `SameSite` in lower case, if it is an allowed one. -/
theorem bind_allowlistedSameSite (htrimmed : ∀ text ∈ attrValue, trimChars text = text) :
    attrValue.bind allowlistedSameSite =
      (let site := attrValue.map fun text => toAsciiLowercase (String.ofList text)
       if site ∈ allowedSites then site else none) := by
  cases attrValue with
  | none => rfl
  | some text =>
      rw [Option.bind_some, Option.map_some, allowlistedSameSite, htrimmed text rfl]
      have hstrict : named text "strict" = true ↔ _ := named_iff_lower (by decide)
      have hlax : named text "lax" = true ↔ _ := named_iff_lower (by decide)
      have hnone : named text "none" = true ↔ _ := named_iff_lower (by decide)
      simp only [hstrict, hlax, hnone]
      generalize toAsciiLowercase (String.ofList text) = lower
      simp only [allowedSites, List.mem_cons, Option.some.injEq, List.not_mem_nil, or_false]
      split_ifs <;> simp_all

/-- The two variables of `SameSite` after the values `tokens`. `none` is a value that is not
allowed. -/
structure SitesRead (state : CookieAttributes) (tokens : List (Option String)) : Prop where
  sameSite : state.sameSite = if none ∈ tokens then none else tokens.head?.join
  invalid : state.sameSiteInvalid = true ↔ none ∈ tokens

/-- One attribute adds its value, if it is a `SameSite`. -/
theorem SitesRead.absorbAttribute {tokens : List (Option String)} (h : SitesRead state tokens) :
    SitesRead (absorbAttribute state attrName attrValue)
      (if named attrName "samesite" then tokens ++ [attrValue.bind allowlistedSameSite]
       else tokens) := by
  obtain ⟨hsite, hinvalid⟩ := h
  by_cases hnamed : named attrName "samesite" = true
  · rw [if_pos hnamed, Fetch.absorbAttribute, named_other hnamed (by decide),
      named_other hnamed (by decide), hnamed]
    generalize attrValue.bind allowlistedSameSite = token
    cases token with
    | none => exact ⟨by simp, by simp⟩
    | some value =>
        cases hinv : state.sameSiteInvalid with
        | true =>
            have hbad : none ∈ tokens := hinvalid.mp hinv
            simp only [Bool.not_true, Bool.and_false]
            exact ⟨by simp [hsite, hbad], by simp [hinv, hbad]⟩
        | false =>
            have hgood : none ∉ tokens := fun hmem => by simp [hinvalid.mpr hmem] at hinv
            rw [if_neg hgood] at hsite
            cases tokens with
            | nil =>
                simp only [hsite]
                exact ⟨by simp, by simp⟩
            | cons first rest =>
                cases first with
                | none => exact absurd List.mem_cons_self hgood
                | some first =>
                    simp only [hsite]
                    exact ⟨by simp_all, by simp_all⟩
  · rw [if_neg hnamed]
    unfold Fetch.absorbAttribute
    repeat' split
    all_goals exact ⟨hsite, hinvalid⟩

/-! ## The loop over the attributes -/

/-- What the loop knows after these attributes. -/
def absorbAll (state : CookieAttributes) (attrs : List Attribute) : CookieAttributes :=
  attrs.foldl (fun state attr => absorbAttribute state attr.name attr.value) state

/-- An attribute is read under its name. -/
theorem Attribute.is_iff (attr : Attribute) (name lower : String)
    (h : name.toList.map Char.toLower = lower.toList.map Char.toLower) :
    attr.Is name ↔ Fetch.named attr.name lower = true := by
  rw [Attribute.Is, named_iff, ← h, eqIgnoreAsciiCase, String.toList_ofList, beq_iff_eq]

/-- An attribute that sets a flag: the flag tells whether it was there. -/
theorem absorbAll_flag (flag : CookieAttributes → Bool) (isFlag : Attribute → Prop)
    [DecidablePred isFlag]
    (hstep : ∀ state (attr : Attribute),
      flag (absorbAttribute state attr.name attr.value) = (flag state || decide (isFlag attr))) :
    flag (absorbAll state attrs) = (flag state || decide (attrs.filter isFlag ≠ [])) := by
  induction attrs generalizing state with
  | nil => simp [absorbAll]
  | cons attr rest ih =>
      rw [absorbAll, List.foldl_cons, ← absorbAll, ih, hstep, List.filter_cons]
      by_cases h : isFlag attr <;> simp [h]

/-- An attribute of which the last one counts. -/
theorem absorbAll_last {β : Type} (field : CookieAttributes → β) (value : Attribute → β)
    (isField : Attribute → Prop) [DecidablePred isField]
    (hstep : ∀ state (attr : Attribute), field (absorbAttribute state attr.name attr.value) =
      if isField attr then value attr else field state) :
    field (absorbAll state attrs) =
      (((attrs.filter isField).getLast?.map value).getD (field state)) := by
  induction attrs using List.reverseRecOn with
  | nil => rfl
  | append_singleton attrs attr ih =>
      rw [absorbAll, List.foldl_concat, ← absorbAll, hstep, ih, List.filter_append]
      by_cases h : isField attr <;> simp [h]

/-- The values of the `SameSite` attributes, as the loop takes them. -/
def siteTokens (attrs : List Attribute) : List (Option String) :=
  (attrs.filter fun attr => attr.Is "SameSite").map fun attr =>
    attr.value.bind allowlistedSameSite

/-- What the loop has read of `SameSite` after all attributes. -/
theorem sitesRead_absorbAll : SitesRead (absorbAll {} attrs) (siteTokens attrs) := by
  induction attrs using List.reverseRecOn with
  | nil => exact ⟨rfl, by simp [absorbAll, siteTokens]⟩
  | append_singleton attrs attr ih =>
      rw [absorbAll, List.foldl_concat, ← absorbAll]
      have htokens : siteTokens (attrs ++ [attr]) =
          if Fetch.named attr.name "samesite" then
            siteTokens attrs ++ [attr.value.bind allowlistedSameSite]
          else siteTokens attrs := by
        have hsite := attr.is_iff "SameSite" "samesite" (by decide)
        rw [siteTokens, List.filter_append, List.map_append, ← siteTokens]
        by_cases h : Fetch.named attr.name "samesite" = true <;> simp [hsite, h]
      rw [htokens]
      exact ih.absorbAttribute

/-- What is kept of the `SameSite` attributes. -/
theorem sameSite_absorbAll (cookie : Cookie) :
    (absorbAll {} cookie.attributes).sameSite = cookie.sameSite := by
  rw [sitesRead_absorbAll.sameSite, Cookie.sameSite]
  have htokens : siteTokens cookie.attributes =
      ((cookie.named "SameSite").map fun attr =>
        attr.value.map fun value => toAsciiLowercase (String.ofList value)).map fun site =>
          if site ∈ allowedSites then site else none := by
    rw [siteTokens, ← Cookie.named, List.map_map]
    exact List.map_congr_left fun attr _ => bind_allowlistedSameSite attr.value_trimmed
  rw [htokens]
  generalize (cookie.named "SameSite").map _ = sites
  have hbad : none ∈ (sites.map fun site => if site ∈ allowedSites then site else none) ↔
      ¬∀ site ∈ sites, site ∈ [some "strict", some "lax", some "none"] := by
    rw [List.mem_map]
    push Not
    refine exists_congr fun site => and_congr_right fun _ => ?_
    by_cases h : site ∈ allowedSites
    · rw [if_pos h]
      refine iff_of_false (fun hnone => ?_) fun hout => hout h
      exact absurd h (by rw [hnone]; decide)
    · rw [if_neg h]
      exact iff_of_true rfl h
  by_cases hall : ∀ site ∈ sites, site ∈ [some "strict", some "lax", some "none"]
  · rw [if_neg (fun hmem => hbad.mp hmem hall)]
    change _ = if _ then _ else _
    rw [if_pos hall]
    cases sites with
    | nil => rfl
    | cons site rest =>
        have hsite : site ∈ allowedSites := hall site List.mem_cons_self
        simp [hsite]
  · rw [if_pos (hbad.mpr hall)]
    change _ = if _ then _ else _
    rw [if_neg hall]

/-! ## Reading what a server wrote -/

variable {part blank : List Char}

/-- Blanks in front of a name do not count. -/
theorem blank_append_splitNameValue (h : Blank blank) :
    splitNameValue (blank ++ part) = splitNameValue part := by
  by_cases hmem : '=' ∈ part
  · obtain ⟨lead, rest, rfl, hlead⟩ := List.eq_append_cons_of_mem hmem
    have hnot : '=' ∉ blank ++ lead :=
      List.not_mem_append (h.not_mem (by decide)) hlead
    rw [← List.append_assoc, splitNameValue, splitOnce_append hnot, splitNameValue,
      splitOnce_append hlead]
    simp only [blank_append_trimChars h]
  · have hnot : '=' ∉ blank ++ part := List.not_mem_append (h.not_mem (by decide)) hmem
    rw [splitNameValue, splitOnce_eq_none hnot, splitNameValue, splitOnce_eq_none hmem]
    simp only [blank_append_trimChars h]

/-- Blanks behind a value do not count. -/
theorem splitNameValue_append_blank (h : Blank blank) :
    splitNameValue (part ++ blank) = splitNameValue part := by
  by_cases hmem : '=' ∈ part
  · obtain ⟨lead, rest, rfl, hlead⟩ := List.eq_append_cons_of_mem hmem
    rw [List.append_assoc, List.cons_append, splitNameValue, splitOnce_append hlead,
      splitNameValue, splitOnce_append hlead]
    simp only [trimChars_append_blank h]
  · have hnot : '=' ∉ part ++ blank := List.not_mem_append hmem (h.not_mem (by decide))
    rw [splitNameValue, splitOnce_eq_none hnot, splitNameValue, splitOnce_eq_none hmem]
    simp only [trimChars_append_blank h]

/-- A part may be trimmed before it is split. -/
theorem splitNameValue_trimChars (part : List Char) :
    splitNameValue (trimChars part) = splitNameValue part := by
  obtain ⟨before, behind, hbefore, hbehind, hpart⟩ := exists_eq_trimChars part
  calc splitNameValue (trimChars part)
      = splitNameValue (before ++ trimChars part ++ behind) := by
        rw [splitNameValue_append_blank hbehind, blank_append_splitNameValue hbefore]
    _ = splitNameValue part := by rw [← hpart]

/-- An empty part is skipped, which is what its empty name would do as well. -/
theorem readAttribute_eq (state : CookieAttributes) (part : List Char) :
    readAttribute state part =
      absorbAttribute state (splitNameValue part).1 (splitNameValue part).2 := by
  rw [readAttribute, ← splitNameValue_trimChars part]
  by_cases hempty : trimChars part = []
  · rw [hempty]
    rfl
  · simp only [if_neg hempty]

namespace Attribute

/-- A written attribute is read back. -/
theorem splitNameValue_render (attr : Attribute) :
    splitNameValue attr.render = (attr.name, attr.value) := by
  obtain ⟨hbefore, hbeforeEquals, hbehindEquals, hbehind⟩ := attr.blanks
  have hvalue := attr.value_trimmed
  rw [render]
  cases hattr : attr.value with
  | none =>
      have hnot : '=' ∉ attr.before ++ attr.name ++ attr.behind := by
        simp [hbefore.not_mem (c := '=') (by decide), attr.name_clean.2,
          hbehind.not_mem (c := '=') (by decide)]
      simp only [splitNameValue, splitOnce_eq_none hnot, trimChars_append_blank hbehind,
        blank_append_trimChars hbefore, attr.name_trimmed]
  | some value =>
      have hnot : '=' ∉ attr.before ++ attr.name ++ attr.beforeEquals := by
        simp [hbefore.not_mem (c := '=') (by decide), attr.name_clean.2,
          hbeforeEquals.not_mem (c := '=') (by decide)]
      simp only [splitNameValue, splitOnce_append hnot, trimChars_append_blank hbeforeEquals,
        blank_append_trimChars hbefore, attr.name_trimmed, trimChars_append_blank hbehind,
        blank_append_trimChars hbehindEquals, hvalue value hattr]

/-- A written attribute has no semicolon. -/
theorem not_mem_render (attr : Attribute) : ';' ∉ attr.render := by
  obtain ⟨hbefore, hbeforeEquals, hbehindEquals, hbehind⟩ := attr.blanks
  have hblank : ∀ {blank : List Char}, Blank blank → ';' ∉ blank :=
    fun h => h.not_mem (by decide)
  rw [render]
  cases hattr : attr.value with
  | none => simp [hblank hbefore, attr.name_clean.1, hblank hbehind]
  | some value =>
      simp [hblank hbefore, attr.name_clean.1, hblank hbeforeEquals, hblank hbehindEquals,
        attr.value_clean value hattr, hblank hbehind]

end Attribute

/-- The loop over the parts sees the attributes that were written. -/
theorem foldl_readAttribute_rendered :
    (attrs.map Attribute.render).foldl readAttribute state = absorbAll state attrs := by
  induction attrs generalizing state with
  | nil => rfl
  | cons attr rest ih =>
      rw [List.map_cons, List.foldl_cons, ih, readAttribute_eq, attr.splitNameValue_render]
      rfl

/-- A written cookie is split into its parts. -/
theorem splitOn_render (cookie : Cookie) :
    cookie.render.splitOn ';' =
      (cookie.name ++ '=' :: cookie.value) :: cookie.attributes.map Attribute.render := by
  rw [Cookie.render, splitOn_intercalate_iff (List.cons_ne_nil _ _)]
  intro part hpart
  rcases List.mem_cons.mp hpart with rfl | hpart
  · simp [cookie.name_clean.1, cookie.value_clean]
  · obtain ⟨attr, -, rfl⟩ := List.mem_map.mp hpart
    exact attr.not_mem_render

section Info

variable (cookie : Cookie)

/-- The flag `Secure` is read as it was written. -/
theorem secure_absorbAll : (absorbAll {} cookie.attributes).secure = cookie.info.secure := by
  rw [absorbAll_flag CookieAttributes.secure (·.Is "Secure")]
  · exact Bool.false_or _
  · intro state attr
    rw [absorbAttribute_secure]
    simp only [attr.is_iff "Secure" "secure" (by decide), Bool.decide_eq_true]

/-- The flag `HttpOnly` is read as it was written. -/
theorem httpOnly_absorbAll :
    (absorbAll {} cookie.attributes).httpOnly = cookie.info.httpOnly := by
  rw [absorbAll_flag CookieAttributes.httpOnly (·.Is "HttpOnly")]
  · exact Bool.false_or _
  · intro state attr
    rw [absorbAttribute_httpOnly]
    simp only [attr.is_iff "HttpOnly" "httponly" (by decide), Bool.decide_eq_true]

/-- The domain is read as it was written. -/
theorem domain_absorbAll : (absorbAll {} cookie.attributes).domain = cookie.info.domain := by
  rw [absorbAll_last CookieAttributes.domain
    (fun attr => (attr.value.filter fun value => value ≠ []).map String.ofList) (·.Is "Domain")]
  · change _ = (((cookie.named "Domain").getLast?.bind Attribute.value).filter _).map _
    rw [← Cookie.named]
    cases (cookie.named "Domain").getLast? <;> rfl
  · intro state attr
    rw [absorbAttribute_domain]
    simp only [attr.is_iff "Domain" "domain" (by decide)]

/-- The path is read as it was written. -/
theorem path_absorbAll : (absorbAll {} cookie.attributes).path = cookie.info.path := by
  rw [absorbAll_last CookieAttributes.path (fun attr => attr.value.map String.ofList)
    (·.Is "Path")]
  · change _ = ((cookie.named "Path").getLast?.bind Attribute.value).map _
    rw [← Cookie.named]
    cases (cookie.named "Path").getLast? <;> rfl
  · intro state attr
    rw [absorbAttribute_path]
    simp only [attr.is_iff "Path" "path" (by decide)]

/-- What is read of a written cookie. -/
theorem parseSetCookie_render :
    parseSetCookie cookie.render = some
      { name := String.ofList cookie.name
        value := some (String.ofList (trimChars cookie.value))
        secure := cookie.info.secure
        httpOnly := cookie.info.httpOnly
        sameSite := cookie.info.sameSite
        domain := cookie.info.domain
        path := cookie.info.path } := by
  have hsplit : splitNameValue (cookie.name ++ '=' :: cookie.value) =
      (cookie.name, some (trimChars cookie.value)) := by
    simp only [splitNameValue, splitOnce_append cookie.name_clean.2, cookie.name_trimmed]
  rw [parseSetCookie, splitOn_render]
  simp only [hsplit, if_neg cookie.name_ne, foldl_readAttribute_rendered, secure_absorbAll,
    httpOnly_absorbAll, domain_absorbAll, path_absorbAll, sameSite_absorbAll]
  rfl

end Info

/-! ## The cookies by name -/

/-- A later entry replaces an earlier one with its key. -/
theorem lookup_foldl_insert {κ ν : Type} [DecidableEq κ] (entries : List (κ × ν))
    (map : HashMap κ ν) (key : κ) :
    (entries.foldl (fun map (key, value) => map.insert key value) map).lookup key =
      ((entries.reverse.find? fun entry => entry.1 = key).map Prod.snd).or (map.lookup key) := by
  induction entries using List.reverseRecOn with
  | nil => rfl
  | append_singleton entries entry ih =>
      rw [List.foldl_concat, List.reverse_append, List.reverse_singleton, List.singleton_append,
        List.find?_cons]
      by_cases hkey : entry.1 = key
      · subst hkey
        rw [AList.lookup_insert]
        simp
      · rw [AList.lookup_insert_ne (Ne.symm hkey), ih]
        simp [hkey]

variable {cookies : List Cookie} {headers : HeaderMap}

/-- The `Set-Cookie` headers of a response are those of `cookies`. -/
def Sets (headers : HeaderMap) (cookies : List Cookie) : Prop :=
  (headers.filter (·.1 = "set-cookie")).map Prod.snd =
    cookies.map fun cookie => headerText cookie.render

instance (headers : HeaderMap) (cookies : List Cookie) : Decidable (Sets headers cookies) :=
  inferInstanceAs (Decidable (_ = _))

/-- The cookies of a response are read header by header. -/
theorem parseAllSetCookies_rendered (hsets : Sets headers cookies)
    (hvisible : ∀ cookie ∈ cookies, ∀ c ∈ cookie.render, isVisibleAscii c = true) :
    parseAllSetCookies headers =
      cookies.filterMap fun cookie => parseSetCookie cookie.render := by
  have htexts : (headers.filter (·.1 = "set-cookie")).filterMap Prod.snd =
      cookies.map fun cookie => String.ofList cookie.render := by
    calc (headers.filter (·.1 = "set-cookie")).filterMap Prod.snd
        = ((headers.filter (·.1 = "set-cookie")).map Prod.snd).filterMap id := by
          rw [List.filterMap_map]
          rfl
      _ = cookies.filterMap fun cookie => headerText cookie.render := by
          rw [show _ = _ from hsets, List.filterMap_map]
          rfl
      _ = cookies.filterMap fun cookie => some (String.ofList cookie.render) := by
          refine List.filterMap_congr fun cookie hcookie => ?_
          rw [headerText, if_pos (List.all_eq_true.mpr (hvisible cookie hcookie))]
      _ = cookies.map fun cookie => String.ofList cookie.render :=
          congrFun List.filterMap_eq_map' cookies
  rw [parseAllSetCookies, htexts, List.filterMap_map]
  simp

/-- Reading the cookies of a response gives back the cookies that the server wrote, if their
headers are visible text. -/
theorem extract_cookies_rendered (toLowercase : String → String) (headers : HeaderMap)
    (cookies : List Cookie) (hsets : Sets headers cookies)
    (hvisible : ∀ cookie ∈ cookies, ∀ c ∈ cookie.render, isVisibleAscii c = true) :
    extractCookieInfos headers = cookies.map Cookie.info ∧
      ((∀ header ∈ headers, header.1 ≠ "cookie") → ∀ key,
        (extractCookiesNameValueMap toLowercase headers).lookup key =
          (cookies.reverse.find? fun cookie =>
            toLowercase (String.ofList cookie.name) = key).map fun cookie =>
              toLowercase (String.ofList (trimChars cookie.value))) := by
  have hparsed := parseAllSetCookies_rendered hsets hvisible
  simp only [parseSetCookie_render, List.filterMap_eq_map'] at hparsed
  refine ⟨?_, fun hcookie key => ?_⟩
  · rw [extractCookieInfos, hparsed, List.map_map]
    rfl
  · have hnone : headers.find? (·.1 = "cookie") = none := by simpa using hcookie
    have hpairs : (parseAllSetCookies headers).filterMap (fun parsed =>
          parsed.value.map fun value => (toLowercase parsed.name, toLowercase value)) =
        cookies.map fun cookie => (toLowercase (String.ofList cookie.name),
          toLowercase (String.ofList (trimChars cookie.value))) := by
      rw [hparsed, List.filterMap_map]
      exact congrFun List.filterMap_eq_map' cookies
    rw [extractCookiesNameValueMap, hnone]
    simp only [hpairs, Option.bind_none, Option.elim_none, List.append_nil]
    rw [lookup_foldl_insert, ← List.map_reverse, List.find?_map, Option.map_map,
      AList.lookup_empty, Option.or_none]
    rfl

/-- A cookie `sid=1` with two attributes. -/
def sidCookie : Cookie where
  name := "sid".toList
  value := "1".toList
  attributes :=
    [{ name := "SECURE".toList, value := none, before := [' '], beforeEquals := []
       behindEquals := [], behind := [], name_trimmed := by decide, name_clean := by decide
       value_trimmed := by decide, value_clean := by decide, blanks := by decide },
     { name := "Path".toList, value := some "/".toList, before := [' '], beforeEquals := []
       behindEquals := [], behind := [], name_trimmed := by decide, name_clean := by decide
       value_trimmed := by decide, value_clean := by decide, blanks := by decide }]
  name_ne := by decide
  name_trimmed := by decide
  name_clean := by decide
  value_clean := by decide

/-- A cookie with two attributes is read back. -/
theorem extract_cookies_rendered_sid :
    extractCookieInfos [("set-cookie", some "sid=1; SECURE; Path=/")] = [sidCookie.info] ∧
      (extractCookiesNameValueMap toAsciiLowercase
        [("set-cookie", some "sid=1; SECURE; Path=/")]).lookup "sid" = some "1" := by
  obtain ⟨hinfos, hmap⟩ := extract_cookies_rendered toAsciiLowercase
    [("set-cookie", some "sid=1; SECURE; Path=/")] [sidCookie] (by decide) (by decide)
  exact ⟨hinfos, (hmap (by decide) "sid").trans (by decide)⟩

/-- A cookie whose name is no ASCII text. -/
def accentCookie : Cookie where
  name := ['é']
  value := ['1']
  attributes := []
  name_ne := by decide
  name_trimmed := by decide
  name_clean := by decide
  value_clean := by decide

/-- A header that is no visible ASCII text is passed over, and its cookie is lost. -/
theorem accent_cookie_dropped :
    Sets [("set-cookie", none)] [accentCookie] ∧
      extractCookieInfos [("set-cookie", none)] ≠ [accentCookie].map Cookie.info := by
  decide

end DomainStatus.Fetch
