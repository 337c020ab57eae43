import DomainStatus.Fetch.PageRequests
import DomainStatus.Lib.FieldLines
import DomainStatus.Lib.Utf8
import DomainStatus.Storage.Models

/-!
# Well-known files

What `src/fetch/well_known.rs` reads off the `security.txt` and the `robots.txt` of a site. Read
`security_txt_fields_iff` and `robots_directives_iff` first: they say which data there is a file
for.
-/

namespace DomainStatus.WellKnown

open Storage FieldLines

/-! ## `security.txt` -/

/-- The fields that are kept. -/
inductive SecurityTxtField
  | contact | expires | encryption | acknowledgments | preferredLanguages | canonical | policy
  | hiring
  deriving DecidableEq

/-- The field of a name, in any case of its letters. -/
def securityTxtField (name : String) : Option SecurityTxtField :=
  match Text.toAsciiLowercase name with
  | "contact" => some .contact
  | "expires" => some .expires
  | "encryption" => some .encryption
  | "acknowledgments" | "acknowledgements" => some .acknowledgments
  | "preferred-languages" => some .preferredLanguages
  | "canonical" => some .canonical
  | "policy" => some .policy
  | "hiring" => some .hiring
  | _ => none

/-- A line of the file. A later date or language replaces an earlier one. -/
def addField (data : SecurityTxtData) (found : List Char × List Char) : SecurityTxtData :=
  let value := String.ofList found.2
  match securityTxtField (String.ofList found.1) with
  | some .contact => { data with contacts := data.contacts ++ [value] }
  | some .expires => { data with expires := some value }
  | some .encryption => { data with encryption := data.encryption ++ [value] }
  | some .acknowledgments => { data with acknowledgments := data.acknowledgments ++ [value] }
  | some .preferredLanguages => { data with preferredLanguages := some value }
  | some .canonical => { data with canonical := data.canonical ++ [value] }
  | some .policy => { data with policy := data.policy ++ [value] }
  | some .hiring => { data with hiring := data.hiring ++ [value] }
  | none => data

/-- The data of a file without lines. -/
def emptySecurityTxt (url : String) (status : UInt16) (body : List Char) : SecurityTxtData where
  sourceUrl := url
  httpStatus := status
  contacts := []
  expires := none
  encryption := []
  acknowledgments := []
  preferredLanguages := none
  canonical := []
  policy := []
  hiring := []
  rawBody := String.ofList body

/-- The loop of `fetch_security_txt_one`. -/
def parseSecurityTxt (url : String) (status : UInt16) (body : List Char) : SecurityTxtData :=
  (fields body).foldl addField (emptySecurityTxt url status body)

/-! ## `robots.txt` -/

/-- The directives that are kept. -/
def robotsDirectives : List String :=
  ["user-agent", "disallow", "allow", "sitemap", "crawl-delay"]

/-- The directives of a file, from the top to the bottom, with their values. -/
def parseRobotsDirectives (body : List Char) : List (String × String) :=
  (fields body).filterMap fun (name, value) =>
    let directive := Text.toAsciiLowercase (String.ofList name)
    if directive ∈ robotsDirectives then some (directive, String.ofList value) else none

/-! ## Fetched files -/

/-- `String::from_utf8_lossy` of a fetched body. -/
def bodyText (bytes : List UInt8) : List Char :=
  Utf8.decodeLossy bytes

/-- What is stored of a fetched `security.txt`. -/
def securityTxtData (file : String × ℕ × List UInt8) : SecurityTxtData :=
  parseSecurityTxt file.1 (UInt16.ofNat file.2.1) (bodyText file.2.2)

/-- What is stored of a fetched `robots.txt`. -/
def robotsTxtData (file : ℕ × List UInt8) : RobotsTxtData where
  httpStatus := UInt16.ofNat file.1
  rawBody := String.ofList (bodyText file.2)
  directives := parseRobotsDirectives (bodyText file.2)

/-! ## What is read -/

/-- The values of a field, from the top to the bottom. -/
def valuesOf (kind : SecurityTxtField) (found : List (List Char × List Char)) : List String :=
  found.filterMap fun field =>
    if securityTxtField (String.ofList field.1) = some kind then some (String.ofList field.2)
    else none

/-- The values of a file as they are kept. -/
structure Holds (data : SecurityTxtData) (found : List (List Char × List Char)) : Prop where
  contacts : data.contacts = valuesOf .contact found
  expires : data.expires = (valuesOf .expires found).getLast?
  encryption : data.encryption = valuesOf .encryption found
  acknowledgments : data.acknowledgments = valuesOf .acknowledgments found
  preferredLanguages : data.preferredLanguages = (valuesOf .preferredLanguages found).getLast?
  canonical : data.canonical = valuesOf .canonical found
  policy : data.policy = valuesOf .policy found
  hiring : data.hiring = valuesOf .hiring found

variable {data : SecurityTxtData} {found : List (List Char × List Char)}

/-- The values of two parts of a file. -/
theorem valuesOf_append (kind : SecurityTxtField) (first second : List (List Char × List Char)) :
    valuesOf kind (first ++ second) = valuesOf kind first ++ valuesOf kind second :=
  List.filterMap_append

/-- The values of one line. -/
theorem valuesOf_singleton (kind : SecurityTxtField) (field : List Char × List Char) :
    valuesOf kind [field] =
      if securityTxtField (String.ofList field.1) = some kind then [String.ofList field.2]
      else [] := by
  rw [valuesOf, List.filterMap_cons, List.filterMap_nil]
  split <;> split <;> simp_all

/-- One more line. -/
theorem Holds.addField (h : Holds data found) (field : List Char × List Char) :
    Holds (addField data field) (found ++ [field]) := by
  unfold WellKnown.addField
  simp only
  split <;> next hkind =>
    exact ⟨by simp [valuesOf_append, valuesOf_singleton, hkind, h.contacts],
      by simp [valuesOf_append, valuesOf_singleton, hkind, h.expires],
      by simp [valuesOf_append, valuesOf_singleton, hkind, h.encryption],
      by simp [valuesOf_append, valuesOf_singleton, hkind, h.acknowledgments],
      by simp [valuesOf_append, valuesOf_singleton, hkind, h.preferredLanguages],
      by simp [valuesOf_append, valuesOf_singleton, hkind, h.canonical],
      by simp [valuesOf_append, valuesOf_singleton, hkind, h.policy],
      by simp [valuesOf_append, valuesOf_singleton, hkind, h.hiring]⟩

/-- The lines do not change where the file comes from. -/
theorem foldl_addField_source (found : List (List Char × List Char)) (data : SecurityTxtData) :
    (found.foldl WellKnown.addField data).sourceUrl = data.sourceUrl ∧
      (found.foldl WellKnown.addField data).httpStatus = data.httpStatus ∧
      (found.foldl WellKnown.addField data).rawBody = data.rawBody := by
  induction found generalizing data with
  | nil => exact ⟨rfl, rfl, rfl⟩
  | cons field rest ih =>
      obtain ⟨hurl, hstatus, hbody⟩ := ih (WellKnown.addField data field)
      rw [List.foldl_cons, hurl, hstatus, hbody]
      unfold WellKnown.addField
      simp only
      split <;> exact ⟨rfl, rfl, rfl⟩

/-- The loop keeps the values of the file. -/
theorem holds_parseSecurityTxt (url : String) (status : UInt16) (body : List Char) :
    Holds (parseSecurityTxt url status body) (fields body) := by
  unfold parseSecurityTxt
  induction fields body using List.reverseRecOn with
  | nil => exact ⟨rfl, rfl, rfl, rfl, rfl, rfl, rfl, rfl⟩
  | append_singleton found field ih =>
      rw [List.foldl_concat]
      exact ih.addField field

/-! ## Which data there is a file for -/

/-- All values of a file. -/
def allValues (data : SecurityTxtData) : List String :=
  data.contacts ++ data.expires.toList ++ data.encryption ++ data.acknowledgments ++
    data.preferredLanguages.toList ++ data.canonical ++ data.policy ++ data.hiring

/-- The lines for the values of one field. -/
def linesFor (name : String) (values : List String) : List (List Char × List Char) :=
  values.map fun value => (name.toList, value.toList)

/-- The lines of a file with some data. -/
def securityTxtLines (data : SecurityTxtData) : List (List Char × List Char) :=
  linesFor "Contact" data.contacts ++ linesFor "Expires" data.expires.toList ++
    linesFor "Encryption" data.encryption ++ linesFor "Acknowledgments" data.acknowledgments ++
    linesFor "Preferred-Languages" data.preferredLanguages.toList ++
    linesFor "Canonical" data.canonical ++ linesFor "Policy" data.policy ++
    linesFor "Hiring" data.hiring

/-- The lines for a field have its values, and those for another one none. -/
theorem valuesOf_linesFor (kind : SecurityTxtField) (name : String) (values : List String) :
    valuesOf kind (linesFor name values) =
      if securityTxtField name = some kind then values else [] := by
  induction values with
  | nil => exact (ite_self []).symm
  | cons value rest ih =>
      have hcons : linesFor name (value :: rest) =
          [(name.toList, value.toList)] ++ linesFor name rest := rfl
      rw [hcons, valuesOf_append, valuesOf_singleton, ih, String.ofList_toList,
        String.ofList_toList]
      split <;> rfl

/-- The last of at most one value. -/
theorem getLast?_toList {α : Type} (value : Option α) : value.toList.getLast? = value := by
  cases value <;> rfl

/-- The lines for some data have its values. -/
theorem holds_securityTxtLines (data : SecurityTxtData) : Holds data (securityTxtLines data) := by
  have hcontact : securityTxtField "Contact" = some .contact := by decide
  have hexpires : securityTxtField "Expires" = some .expires := by decide
  have hencryption : securityTxtField "Encryption" = some .encryption := by decide
  have hacknowledgments : securityTxtField "Acknowledgments" = some .acknowledgments := by decide
  have hlanguages : securityTxtField "Preferred-Languages" = some .preferredLanguages := by decide
  have hcanonical : securityTxtField "Canonical" = some .canonical := by decide
  have hpolicy : securityTxtField "Policy" = some .policy := by decide
  have hhiring : securityTxtField "Hiring" = some .hiring := by decide
  constructor <;>
    simp [securityTxtLines, valuesOf_append, valuesOf_linesFor, hcontact, hexpires, hencryption,
      hacknowledgments, hlanguages, hcanonical, hpolicy, hhiring, getLast?_toList]

/-- Two files with the same fields have the same data. -/
theorem Holds.eq {other : SecurityTxtData} (h : Holds data found) (hother : Holds other found)
    (hurl : data.sourceUrl = other.sourceUrl) (hstatus : data.httpStatus = other.httpStatus)
    (hbody : data.rawBody = other.rawBody) : data = other := by
  obtain ⟨h1, h2, h3, h4, h5, h6, h7, h8⟩ := h
  obtain ⟨o1, o2, o3, o4, o5, o6, o7, o8⟩ := hother
  cases data
  cases other
  simp only at *
  simp only [SecurityTxtData.mk.injEq]
  exact ⟨hurl, hstatus, h1.trans o1.symm, h2.trans o2.symm, h3.trans o3.symm, h4.trans o4.symm,
    h5.trans o5.symm, h6.trans o6.symm, h7.trans o7.symm, h8.trans o8.symm, hbody⟩

/-- A value that was read is one that a line can have. -/
theorem value_of_mem_valuesOf {kind : SecurityTxtField} {value : String}
    (hfound : ∀ field ∈ found, WellFormed field) (h : value ∈ valuesOf kind found) :
    Value value.toList := by
  obtain ⟨field, hfield, hsome⟩ := List.mem_filterMap.mp h
  split at hsome
  · cases hsome
    rw [String.toList_ofList]
    exact (hfound field hfield).value
  · cases hsome

/-- The values that are kept are among those of the file. -/
theorem Holds.value (h : Holds data found) (hfound : ∀ field ∈ found, WellFormed field) :
    ∀ value ∈ allValues data, Value value.toList := by
  have hlast : ∀ {kind value}, value ∈ (valuesOf kind found).getLast?.toList →
      value ∈ valuesOf kind found := by
    intro kind value hvalue
    exact List.mem_of_getLast? (Option.mem_toList.mp hvalue)
  intro value hvalue
  simp only [allValues, List.mem_append, h.contacts, h.expires, h.encryption, h.acknowledgments,
    h.preferredLanguages, h.canonical, h.policy, h.hiring] at hvalue
  rcases hvalue with ((((((h | h) | h) | h) | h) | h) | h) | h
  all_goals first
    | exact value_of_mem_valuesOf hfound h
    | exact value_of_mem_valuesOf hfound (hlast h)

/-- The lines for some values are well formed. -/
theorem wellFormed_of_mem_linesFor {name : String} {values : List String}
    (hname : Name name.toList) (hvalues : ∀ value ∈ values, Value value.toList) :
    ∀ field ∈ linesFor name values, WellFormed field := by
  intro field hfield
  obtain ⟨value, hvalue, rfl⟩ := List.mem_map.mp hfield
  exact ⟨hname, hvalues value hvalue⟩

/-- A file is read with some data exactly if each value is one that a line can have. -/
theorem security_txt_fields_iff (data : SecurityTxtData) :
    (∃ body, parseSecurityTxt data.sourceUrl data.httpStatus body =
        { data with rawBody := String.ofList body }) ↔
      ∀ value ∈ allValues data, Value value.toList := by
  constructor
  · intro h
    obtain ⟨body, hbody⟩ := h
    have hholds := holds_parseSecurityTxt data.sourceUrl data.httpStatus body
    rw [hbody] at hholds
    exact hholds.value fun field hfield => wellFormed_of_mem_fields hfield
  · intro h
    have hfound : ∀ field ∈ securityTxtLines data, WellFormed field := by
      simp only [allValues, List.forall_mem_append] at h
      obtain ⟨⟨⟨⟨⟨⟨⟨h1, h2⟩, h3⟩, h4⟩, h5⟩, h6⟩, h7⟩, h8⟩ := h
      simp only [securityTxtLines, List.forall_mem_append]
      refine ⟨⟨⟨⟨⟨⟨⟨?_, ?_⟩, ?_⟩, ?_⟩, ?_⟩, ?_⟩, ?_⟩, ?_⟩
      all_goals
        refine wellFormed_of_mem_linesFor ⟨by decide, by decide, by decide, by decide⟩ ?_
        assumption
    refine ⟨renderAll (securityTxtLines data), ?_⟩
    have hholds := holds_parseSecurityTxt data.sourceUrl data.httpStatus
      (renderAll (securityTxtLines data))
    rw [fields_renderAll hfound] at hholds
    obtain ⟨hurl, hstatus, hbody⟩ := foldl_addField_source
      (fields (renderAll (securityTxtLines data)))
      (emptySecurityTxt data.sourceUrl data.httpStatus (renderAll (securityTxtLines data)))
    have hdata := holds_securityTxtLines data
    exact hholds.eq ⟨hdata.contacts, hdata.expires, hdata.encryption, hdata.acknowledgments,
      hdata.preferredLanguages, hdata.canonical, hdata.policy, hdata.hiring⟩ hurl hstatus hbody

/-- A directive that was read is known and has a value. -/
theorem directive_mem_parseRobotsDirectives {body : List Char} {directive : String × String}
    (h : directive ∈ parseRobotsDirectives body) :
    directive.1 ∈ robotsDirectives ∧ Value directive.2.toList := by
  obtain ⟨field, hfield, hsome⟩ := List.mem_filterMap.mp h
  simp only at hsome
  split at hsome
  case isTrue hmem =>
    cases hsome
    refine ⟨hmem, ?_⟩
    rw [String.toList_ofList]
    exact (wellFormed_of_mem_fields hfield).value
  case isFalse => cases hsome

/-- The known directives are in lower case. -/
theorem toAsciiLowercase_robotsDirectives :
    ∀ directive ∈ robotsDirectives, Text.toAsciiLowercase directive = directive := by
  decide

/-- The known directives are names of fields. -/
theorem name_robotsDirectives : ∀ directive ∈ robotsDirectives, Name directive.toList := by
  intro directive h
  simp only [robotsDirectives, List.mem_cons, List.not_mem_nil, or_false] at h
  rcases h with rfl | rfl | rfl | rfl | rfl
  all_goals exact ⟨by decide, by decide, by decide, by decide⟩

/-- A file is read as some directives exactly if each of them is known, in lower case, and has a
value that a line can have. -/
theorem robots_directives_iff (directives : List (String × String)) :
    (∃ body, parseRobotsDirectives body = directives) ↔
      ∀ directive ∈ directives,
        directive.1 ∈ robotsDirectives ∧ Value directive.2.toList := by
  constructor
  · rintro ⟨body, rfl⟩ directive hdirective
    exact directive_mem_parseRobotsDirectives hdirective
  · intro h
    let found := directives.map fun directive => (directive.1.toList, directive.2.toList)
    have hfound : ∀ field ∈ found, WellFormed field := by
      intro field hfield
      obtain ⟨directive, hdirective, rfl⟩ := List.mem_map.mp hfield
      exact ⟨name_robotsDirectives _ (h directive hdirective).1, (h directive hdirective).2⟩
    refine ⟨renderAll found, ?_⟩
    rw [parseRobotsDirectives, fields_renderAll hfound, List.filterMap_map]
    -- Every line is of a directive that is known.
    calc directives.filterMap _
        = directives.filterMap some := by
          refine List.filterMap_congr fun directive hdirective => ?_
          obtain ⟨hknown, -⟩ := h directive hdirective
          have hlower := toAsciiLowercase_robotsDirectives _ hknown
          simp [hlower, hknown]
      _ = directives := List.filterMap_some

end DomainStatus.WellKnown
