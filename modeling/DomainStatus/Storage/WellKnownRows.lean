import DomainStatus.Fetch.WellKnown
import DomainStatus.Storage.Items
import DomainStatus.Storage.Pages

/-!
# Stored well-known files

The way of `security.txt` and `robots.txt` from the network into the tables. The values of a field
of `security.txt` are stored in one column, one below the other, and can be told apart again. Read
`well_known_rows_match_files` first.
-/

namespace DomainStatus.Storage

open Fetch WellKnown

/-- The record with the well-known files of its site. -/
def withWellKnown (record : PersistedUrlRecord) (files : WellKnownData) : PersistedUrlRecord where
  __ := record
  securityTxt := files.securityTxt.map securityTxtData
  robotsTxt := files.robotsTxt.map robotsTxtData

/-! ## Columns of several lines -/

/-- The lines of a column. -/
def columnLines : Value → List String
  | .text text => if text = "" then [] else (text.toList.splitOn '\n').map String.ofList
  | _ => []

/-- Values without line breaks are read back line by line. -/
theorem columnLines_join {values : List String}
    (h : ∀ value ∈ values, FieldLines.Value value.toList) :
    columnLines (.text ("\n".intercalate values)) = values := by
  cases values with
  | nil => rfl
  | cons value rest =>
      have hchars : ("\n".intercalate (value :: rest)).toList =
          ['\n'].intercalate ((value :: rest).map String.toList) := String.toList_intercalate
      have hne : "\n".intercalate (value :: rest) ≠ "" := by
        intro hempty
        rw [hempty, eq_comm] at hchars
        have hvalue := (h value List.mem_cons_self).ne_nil
        rcases Text.intercalate_eq_nil_iff.mp hchars with hnil | hsingle
        · cases hnil
        · exact hvalue (List.cons.inj hsingle).1
      have hlines : ∀ line ∈ (value :: rest).map String.toList, '\n' ∉ line :=
        List.forall_mem_map.mpr fun value hvalue => (h value hvalue).line
      have hne' : (value :: rest).map String.toList ≠ [] := List.cons_ne_nil _ _
      have hsplit := (Text.splitOn_intercalate_iff hne').mpr hlines
      rw [columnLines, if_neg hne, hchars, hsplit, List.map_map]
      simp [Function.comp_def]

/-! ## The rows -/

/-- The value of a row for `security.txt` in a column. -/
def securityTxtColumn (name : String) (row : List Value) : Value :=
  row.getD (Satellite.securityTxt.columns.idxOf name) .null

/-- The fields that can occur several times, by their columns. -/
def listColumns : List (String × SecurityTxtField) :=
  [("contacts", .contact), ("encryption", .encryption), ("acknowledgments", .acknowledgments),
    ("canonical", .canonical), ("policy", .policy), ("hiring", .hiring)]

/-- The fields of which the last one counts, by their columns. -/
def lastColumns : List (String × SecurityTxtField) :=
  [("expires", .expires), ("preferred_languages", .preferredLanguages)]

/-- The row has what the file says. -/
structure SecurityTxtRow (file : String × ℕ × List UInt8) (row : List Value) : Prop where
  source : securityTxtColumn "source_url" row = .text file.1
  status : securityTxtColumn "http_status" row = .integer file.2.1
  lists : ∀ column ∈ listColumns, columnLines (securityTxtColumn column.1 row) =
    valuesOf column.2 (FieldLines.fields (bodyText file.2.2))
  lasts : ∀ column ∈ lastColumns, securityTxtColumn column.1 row =
    .ofOption .text (valuesOf column.2 (FieldLines.fields (bodyText file.2.2))).getLast?
  body : securityTxtColumn "raw_body" row = .text (String.ofList (bodyText file.2.2))

/-- The row for a fetched `robots.txt`. -/
def robotsTxtRow (file : ℕ × List UInt8) : List Value :=
  [.integer file.1, .text (String.ofList (bodyText file.2))]

/-- The row for a directive. -/
def directiveRow (directive : String × String) : List Value :=
  [.text directive.1, .text directive.2]

/-- The tables have for a page what its well-known files say. -/
structure WellKnownRows (files : WellKnownData) (db : Database) (urlStatusId : ℕ) : Prop where
  securityTxt : List.Forall₂ SecurityTxtRow files.securityTxt.toList
    ((db.satellites .securityTxt).valuesOf urlStatusId)
  robotsTxt : (db.satellites .robotsTxt).valuesOf urlStatusId =
    files.robotsTxt.toList.map robotsTxtRow
  robotsDirectives : (db.satellites .robotsDirectives).valuesOf urlStatusId =
    (files.robotsTxt.toList.flatMap fun file =>
      parseRobotsDirectives (bodyText file.2)).eraseDups.map directiveRow

/-! ## The fetched files -/

/-- The network answers a request for the URL with the status and the body, of which no more is
kept than the limit. -/
def Answers (U : Security.UrlCrate) (net : Network) (number : ℕ) (url : String) (status : ℕ)
    (body : List UInt8) : Prop :=
  reqwestAccepts U url = true ∧ ∃ response bytes, net number url = some response ∧
    responseBytes response = some bytes ∧ response.status.code = status ∧
    bytes.take maxWellKnownBody = body

/-- The network has a `security.txt` at the URL: a success with a text that is not blank. -/
def ServesSecurityTxt (U : Security.UrlCrate) (net : Network) (number : ℕ) (url : String)
    (status : ℕ) (body : List UInt8) : Prop :=
  Answers U net number url status body ∧ (200 ≤ status ∧ status < 300) ∧ isBlankText body = false

/-- The files are the ones that the network has for an origin: the `security.txt` of the first of
the two places with one, and the `robots.txt` unless it is not found. -/
structure ServedByOrigin (U : Security.UrlCrate) (net : Network) (origin : String)
    (files : WellKnownData) : Prop where
  securityTxt : ∀ url status body, files.securityTxt = some (url, status, body) ↔
    url = origin ++ "/.well-known/security.txt" ∧
        ServesSecurityTxt U net 0 (origin ++ "/.well-known/security.txt") status body ∨
      (∀ status body,
        ¬ ServesSecurityTxt U net 0 (origin ++ "/.well-known/security.txt") status body) ∧
      url = origin ++ "/security.txt" ∧
        ServesSecurityTxt U net 1 (origin ++ "/security.txt") status body
  robotsTxt : ∀ status body, files.robotsTxt = some (status, body) ↔
    Answers U net 2 (origin ++ "/robots.txt") status body ∧ status ≠ 404

/-- The files are the ones of the origin of a page. A page without an origin has none. -/
def ServedBy (U : Security.UrlCrate) (net : Network) (finalUrl : String)
    (files : WellKnownData) : Prop :=
  match (U.parse finalUrl).bind (originRoot U) with
  | none => files = ⟨none, none⟩
  | some origin => ServedByOrigin U net origin files

section Fetched

variable {U : Security.UrlCrate} {net : Network} {number : ℕ} {url : String} {status : ℕ}
  {body : List UInt8}

/-- The status of an answer has three digits at most. -/
theorem Answers.status_lt (h : Answers U net number url status body) : status < 1000 := by
  obtain ⟨-, response, -, -, -, rfl, -⟩ := h
  exact response.status.upper

/-- A text is fetched exactly if the server answers it. -/
theorem fetchText_eq_some_iff :
    (fetchText U net number url).result = some (status, body) ↔
      Answers U net number url status body := by
  unfold fetchText send Answers
  split
  case isTrue haccepts => simp [haccepts, Option.bind_eq_some_iff]
  case isFalse haccepts => simp [haccepts]

/-- A security.txt is fetched exactly if the server has one. -/
theorem fetchSecurityTxtOne_eq_some_iff {served : String} :
    (fetchSecurityTxtOne U net number url).result = some (served, status, body) ↔
      served = url ∧ ServesSecurityTxt U net number url status body := by
  rw [fetchSecurityTxtOne, Option.bind_eq_some_iff]
  constructor
  · rintro ⟨⟨status', body'⟩, htext, hkept⟩
    simp only at hkept
    split at hkept
    case isTrue => cases hkept
    case isFalse hnot =>
      cases hkept
      rw [not_or, not_not, Bool.not_eq_true] at hnot
      exact ⟨rfl, fetchText_eq_some_iff.mp htext, hnot.1, hnot.2⟩
  · rintro ⟨rfl, htext, hsuccess, hblank⟩
    refine ⟨(status, body), fetchText_eq_some_iff.mpr htext, ?_⟩
    simp [hsuccess, hblank]

/-- None is fetched exactly if the server has none. -/
theorem fetchSecurityTxtOne_eq_none_iff :
    (fetchSecurityTxtOne U net number url).result = none ↔
      ∀ status body, ¬ ServesSecurityTxt U net number url status body := by
  rw [Option.eq_none_iff_forall_ne_some]
  constructor
  · intro h status body hserves
    exact h _ (fetchSecurityTxtOne_eq_some_iff.mpr ⟨rfl, hserves⟩)
  · rintro h ⟨served, status, body⟩ hsome
    exact h status body (fetchSecurityTxtOne_eq_some_iff.mp hsome).2

/-- A robots.txt is fetched exactly if the server answers it, not with 404. -/
theorem fetchRobotsTxt_eq_some_iff :
    (fetchRobotsTxt U net number url).result = some (status, body) ↔
      Answers U net number url status body ∧ status ≠ 404 := by
  rw [fetchRobotsTxt, Option.bind_eq_some_iff]
  constructor
  · rintro ⟨⟨status', body'⟩, htext, hkept⟩
    simp only at hkept
    split at hkept
    case isTrue => cases hkept
    case isFalse hfound =>
      cases hkept
      exact ⟨fetchText_eq_some_iff.mp htext, hfound⟩
  · rintro ⟨htext, hfound⟩
    refine ⟨(status, body), fetchText_eq_some_iff.mpr htext, ?_⟩
    simp [hfound]

/-- The later places are looked at when the first has no file. -/
theorem fetchSecurityTxt_cons {urls : List String} :
    (fetchSecurityTxt U net number (url :: urls)).result =
      (fetchSecurityTxtOne U net number url).result.or
        (fetchSecurityTxt U net (number + 1) urls).result := by
  rw [fetchSecurityTxt]
  cases hfirst : (fetchSecurityTxtOne U net number url).result with
  | some data => simp only [Option.some_or]
  | none => simp only [Option.none_or]

/-- The second address is asked only if the first has nothing. -/
theorem fetchSecurityTxt_eq_some_iff {second served : String} :
    (fetchSecurityTxt U net number [url, second]).result = some (served, status, body) ↔
      served = url ∧ ServesSecurityTxt U net number url status body ∨
        (∀ status body, ¬ ServesSecurityTxt U net number url status body) ∧
        served = second ∧ ServesSecurityTxt U net (number + 1) second status body := by
  have hlast : (fetchSecurityTxt U net (number + 1) [second]).result =
      (fetchSecurityTxtOne U net (number + 1) second).result := by
    rw [fetchSecurityTxt_cons, fetchSecurityTxt, Option.or_none]
  rw [fetchSecurityTxt_cons, hlast, Option.or_eq_some_iff, fetchSecurityTxtOne_eq_some_iff,
    fetchSecurityTxtOne_eq_none_iff, fetchSecurityTxtOne_eq_some_iff]

variable (U net) in
/-- Both files are what the server answers. -/
theorem servedBy_fetchWellKnown (finalUrl : String) :
    ServedBy U net finalUrl (fetchWellKnown U net finalUrl).result := by
  unfold ServedBy fetchWellKnown
  cases (U.parse finalUrl).bind (originRoot U) with
  | none => rfl
  | some origin =>
      exact ⟨fun url status body => fetchSecurityTxt_eq_some_iff,
        fun status body => fetchRobotsTxt_eq_some_iff⟩

/-- Every file was answered with a status of a response. -/
theorem ServedBy.status_lt {finalUrl : String} {files : WellKnownData}
    (h : ServedBy U net finalUrl files) :
    (∀ file, files.securityTxt = some file → file.2.1 < 1000) ∧
      ∀ file, files.robotsTxt = some file → file.1 < 1000 := by
  unfold ServedBy at h
  split at h
  · subst h
    exact ⟨nofun, nofun⟩
  · refine ⟨fun ⟨url, status, body⟩ hfile => ?_, fun ⟨status, body⟩ hfile => ?_⟩
    · rcases (h.securityTxt url status body).mp hfile with ⟨-, hserves⟩ | ⟨-, -, hserves⟩
      · exact hserves.1.status_lt
      · exact hserves.1.status_lt
    · exact ((h.robotsTxt status body).mp hfile).1.status_lt

end Fetched

/-! ## From the network to the tables -/

section Rows

variable {readers : Readers} {record : PersistedUrlRecord} {files : WellKnownData}

/-- A status fits the column. -/
theorem toNat_status {status : ℕ} (h : status < 1000) : (UInt16.ofNat status).toNat = status :=
  UInt16.toNat_ofNat_of_lt (by rw [UInt16.size]; omega)

/-- A security.txt is stored as one row. -/
theorem securityTxtRow_insert {file : String × ℕ × List UInt8} (hfile : file.2.1 < 1000) :
    ∃ row, mergedRows (insertSecurityTxt (securityTxtData file)) [] = [row] ∧
      SecurityTxtRow file row := by
  have hholds := holds_parseSecurityTxt file.1 (UInt16.ofNat file.2.1) (bodyText file.2.2)
  have hlist : ∀ {values kind},
      values = valuesOf kind (FieldLines.fields (bodyText file.2.2)) →
      columnLines (.text ("\n".intercalate values)) =
        valuesOf kind (FieldLines.fields (bodyText file.2.2)) := by
    rintro values kind rfl
    exact columnLines_join fun value hvalue =>
      value_of_mem_valuesOf (fun field hfield => FieldLines.wellFormed_of_mem_fields hfield) hvalue
  obtain ⟨hurl, hstatus, hbody⟩ := foldl_addField_source
    (FieldLines.fields (bodyText file.2.2))
    (emptySecurityTxt file.1 (UInt16.ofNat file.2.1) (bodyText file.2.2))
  refine ⟨_, rfl, ⟨?_, ?_, ?_, ?_, ?_⟩⟩
  · exact congrArg Value.text hurl
  · show Value.integer (securityTxtData file).httpStatus.toNat = _
    rw [securityTxtData, parseSecurityTxt, hstatus]
    exact congrArg (fun status : ℕ => Value.integer status) (toNat_status hfile)
  · simp only [listColumns, List.forall_mem_cons]
    exact ⟨hlist hholds.contacts, hlist hholds.encryption, hlist hholds.acknowledgments,
      hlist hholds.canonical, hlist hholds.policy, hlist hholds.hiring, List.forall_mem_nil _⟩
  · simp only [lastColumns, List.forall_mem_cons]
    exact ⟨congrArg (Value.ofOption .text) hholds.expires,
      congrArg (Value.ofOption .text) hholds.preferredLanguages, List.forall_mem_nil _⟩
  · exact congrArg Value.text hbody

/-- Each robots directive is stored once. -/
theorem mergedRows_robotsDirectives (directives : List (String × String)) :
    mergedRows (insertRobotsDirectives directives) [] =
      directives.eraseDups.map directiveRow := by
  refine mergedRows_doNothing (fun old new h => ?_) directives
  have hvalues : [Value.text old.1, .text old.2] = [Value.text new.1, .text new.2] := h
  simpa [Prod.ext_iff] using hvalues

/-- The rows that a record asks for are those of the files. -/
theorem wellKnownRows_of_coreRows {db : Database} {key : Value × Value} {urlStatusId : ℕ}
    (hsecurityTxt : ∀ file, files.securityTxt = some file → file.2.1 < 1000)
    (hrobotsTxt : ∀ file, files.robotsTxt = some file → file.1 < 1000)
    (hcore : CoreFrom readers (withWellKnown record files) key urlStatusId db) :
    WellKnownRows files db urlStatusId where
  securityTxt := by
    rw [hcore.rows .securityTxt (by decide)]
    show List.Forall₂ SecurityTxtRow files.securityTxt.toList (mergedRows
      (((files.securityTxt.map securityTxtData).map insertSecurityTxt).getD []) [])
    cases hfile : files.securityTxt with
    | none => exact .nil
    | some file =>
        obtain ⟨row, hrow, hsays⟩ := securityTxtRow_insert (hsecurityTxt file hfile)
        simp only [Option.map_some, Option.getD_some, hrow, Option.toList_some]
        exact .cons hsays .nil
  robotsTxt := by
    rw [hcore.rows .robotsTxt (by decide)]
    show mergedRows (((files.robotsTxt.map robotsTxtData).map insertRobotsTxtRow).getD []) [] = _
    cases hfile : files.robotsTxt with
    | none => rfl
    | some file =>
        show [[Value.integer (UInt16.ofNat file.1).toNat, _]] = [robotsTxtRow file]
        rw [toNat_status (hrobotsTxt file hfile)]
        rfl
  robotsDirectives := by
    rw [hcore.rows .robotsDirectives (by decide)]
    show mergedRows (((files.robotsTxt.map robotsTxtData).map fun data =>
      insertRobotsDirectives data.directives).getD []) [] = _
    cases files.robotsTxt with
    | none => rfl
    | some file =>
        show mergedRows (insertRobotsDirectives (parseRobotsDirectives (bodyText file.2))) [] = _
        rw [mergedRows_robotsDirectives, Option.toList_some, List.flatMap_singleton]

end Rows

/-- The well-known files of a page reach its tables, whatever the network answers. They are the ones
of the origin of the page, and no more of a text is kept than the limit. The text of each file is
stored with its status. Every field of `security.txt` has all its values in the column of the field,
which are told apart by their lines, and a date or a language is the last one of the file. Every
directive of `robots.txt` is stored once. -/
theorem well_known_rows_match_files (readers : Readers) (U : Security.UrlCrate) (net : Network)
    (finalUrl : String) (record : PersistedUrlRecord) (key : Value × Value)
    (hkey : statusKey (statusRow record.urlRecord) = some key) (db : Database) :
    let files := (fetchWellKnown U net finalUrl).result
    ServedBy U net finalUrl files ∧
      ∃ outcome after, insertUrlRecordImpl readers noFaults db (withWellKnown record files) =
          .ok (outcome, after) ∧
        WellKnownRows files after outcome.id := by
  intro files
  have hserved : ServedBy U net finalUrl files := servedBy_fetchWellKnown U net finalUrl
  obtain ⟨hsecurityTxt, hrobotsTxt⟩ := hserved.status_lt
  have hkey' : statusKey (statusRow (withWellKnown record files).urlRecord) = some key := hkey
  obtain ⟨outcome, after, hok, hcore, -⟩ := insertUrlRecordImpl_replaces readers hkey' db
  exact ⟨hserved, outcome, after, hok, wellKnownRows_of_coreRows hsecurityTxt hrobotsTxt hcore⟩

/-- A site with two contacts. -/
def twoContacts : Network := fun _ url =>
  if url = "https://example.com/.well-known/security.txt" then
    some ⟨⟨203, by decide, by decide⟩, [],
      [some "Contact: mailto:a@example.com\n# or\ncontact:https://b.test".toUTF8.toList]⟩
  else none

/-- A security.txt with two contacts. -/
theorem well_known_rows_match_files_two_contacts :
    let files := (fetchWellKnown Security.exampleUrlCrate twoContacts "https://example.com/").result
    files.securityTxt.map (fun file => (securityTxtData file).contacts) =
        some ["mailto:a@example.com", "https://b.test"] ∧
      ServedBy Security.exampleUrlCrate twoContacts "https://example.com/" files ∧
      ∃ outcome after, insertUrlRecordImpl idleReaders noFaults .empty
          (withWellKnown (twoPages .first) files) = .ok (outcome, after) ∧
        WellKnownRows files after outcome.id :=
  ⟨by decide +kernel, (well_known_rows_match_files idleReaders Security.exampleUrlCrate twoContacts
    "https://example.com/" (twoPages .first) (twoKeys .first) (twoPages_key .first) .empty)⟩

end DomainStatus.Storage
