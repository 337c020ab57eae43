import DomainStatus.Storage.CoreSatellites

/-!
# Exported lists of strings

How the exporters read a list of strings: `fetch_string_list` of `src/export/queries.rs` joins the
rows of a URL with commas, and `parse_string_list` of `src/export/row.rs` splits the text again.
Read `parseStringList_join_iff` first. Of an exported row only the lists of a certificate are
modelled.
-/

namespace DomainStatus.Export

open Storage

/-- `MAX_EXPORT_RELATED_RECORDS`. -/
def maxExportRelatedRecords : ℕ := 500

/-- `row.get::<String, _>(0)`. -/
def firstText (row : List Value) : String :=
  match row with
  | .text value :: _ => value
  | _ => ""

/-- The strings that are stored for a URL in a table. -/
def storedStrings (db : Database) (table : Satellite) (urlStatusId : ℕ) : List String :=
  ((db.satellites table).valuesOf urlStatusId).map firstText

/-- `ORDER BY` of a column. -/
def orderBy (values : List String) : List String :=
  values.mergeSort fun left right => decide (left ≤ right)

/-- The joined strings with their number. The query is
`SELECT column FROM table WHERE url_status_id = ? ORDER BY column LIMIT 500`. -/
def fetchStringList (db : Database) (table : Satellite) (urlStatusId : ℕ) : String × ℕ :=
  let items := (orderBy (storedStrings db table urlStatusId)).take maxExportRelatedRecords
  (String.intercalate "," items, items.length)

/-- The items of a joined text, as a reader of the export takes it apart. -/
def parseStringList (listStr : String) : List String :=
  if listStr = "" then [] else (listStr.toList.splitOn ',').map String.ofList

/-- The columns of a certificate in an exported row. -/
structure ExportRow where
  certificateSansStr : String
  certificateSanCount : ℕ
  oidsStr : String
  oidCount : ℕ

/-- The columns of the certificate in an exported row. -/
def buildExportRow (db : Database) (urlStatusId : ℕ) : ExportRow :=
  let sans := fetchStringList db .certificateSans urlStatusId
  let oids := fetchStringList db .certificateOids urlStatusId
  { certificateSansStr := sans.1
    certificateSanCount := sans.2
    oidsStr := oids.1
    oidCount := oids.2 }

/-- What the exporters for JSONL and Parquet write about a certificate. -/
structure ExportedCertificate where
  sans : List String
  sanCount : ℕ
  oids : List String
  oidCount : ℕ

/-- The certificate as the JSON export shows it. -/
def exportCertificate (row : ExportRow) : ExportedCertificate where
  sans := parseStringList row.certificateSansStr
  sanCount := row.certificateSanCount
  oids := parseStringList row.oidsStr
  oidCount := row.oidCount

/-! ## Joining and splitting -/

/-- No string has a comma in it, and the list is not just an empty string. -/
def CommaFree (items : List String) : Prop :=
  (∀ item ∈ items, ',' ∉ item.toList) ∧ items ≠ [""]

section Join

variable {items : List String}

/-- The characters of a joined text. -/
theorem toList_join (items : List String) :
    (String.intercalate "," items).toList = [','].intercalate (items.map String.toList) :=
  String.toList_intercalate

/-- Only no item, or one empty item, is joined to an empty text. -/
theorem join_eq_empty_iff : String.intercalate "," items = "" ↔ items = [] ∨ items = [""] := by
  rw [← String.toList_eq_nil_iff, toList_join, Text.intercalate_eq_nil_iff, List.map_eq_nil_iff]
  refine or_congr_right ⟨fun h => ?_, fun h => by rw [h]; rfl⟩
  obtain ⟨item, rfl, hitem⟩ := List.map_eq_singleton_iff.mp h
  rw [String.toList_eq_nil_iff.mp hitem]

/-- Parts are the items if their characters are. -/
theorem map_ofList_eq_iff {parts : List (List Char)} :
    parts.map String.ofList = items ↔ parts = items.map String.toList := by
  constructor
  · intro h
    rw [← h, List.map_map]
    simp [Function.comp_def]
  · intro h
    rw [h, List.map_map]
    simp [Function.comp_def]

/-- A joined text is taken apart again exactly if no item has a comma. -/
theorem parseStringList_join_iff (items : List String) :
    parseStringList (String.intercalate "," items) = items ↔ CommaFree items := by
  rw [parseStringList]
  split
  case isTrue hempty =>
    rcases join_eq_empty_iff.mp hempty with rfl | rfl
    · exact iff_of_true rfl ⟨nofun, by simp⟩
    · exact iff_of_false (by simp) fun h => h.2 rfl
  case isFalse hsome =>
    rw [join_eq_empty_iff, not_or] at hsome
    have hne : items.map String.toList ≠ [] := fun h => hsome.1 (List.map_eq_nil_iff.mp h)
    rw [map_ofList_eq_iff, toList_join, Text.splitOn_intercalate_iff hne, List.forall_mem_map]
    exact ⟨fun h => ⟨h, hsome.2⟩, fun h => h.1⟩

end Join

/-! ## Stored lists -/

/-- Sorting keeps the values. -/
theorem orderBy_perm (values : List String) : (orderBy values).Perm values :=
  List.mergeSort_perm values _

/-- Whether items have commas does not depend on their order. -/
theorem commaFree_perm {left right : List String} (h : left.Perm right) :
    CommaFree left ↔ CommaFree right := by
  have hsingle : left = [""] ↔ right = [""] := by
    constructor
    · intro heq
      rw [heq] at h
      exact (List.singleton_perm.mp h).symm
    · intro heq
      rw [heq] at h
      exact List.perm_singleton.mp h
  simp only [CommaFree, h.mem_iff, ne_eq, hsingle]

/-- A stored list is exported as it is, in order, with its length. -/
structure Survives (stored exported : List String) (count : ℕ) : Prop where
  same : exported = orderBy stored
  count : exported.length = count

/-- A list that is not cut survives exactly if it is free of commas. -/
theorem survives_fetchStringList_iff {db : Database} {table : Satellite} {urlStatusId : ℕ}
    (hfew : (storedStrings db table urlStatusId).length ≤ maxExportRelatedRecords) :
    Survives (storedStrings db table urlStatusId)
        (parseStringList (fetchStringList db table urlStatusId).1)
        (fetchStringList db table urlStatusId).2 ↔
      CommaFree (storedStrings db table urlStatusId) := by
  have hperm := orderBy_perm (storedStrings db table urlStatusId)
  have hall : (orderBy (storedStrings db table urlStatusId)).take maxExportRelatedRecords =
      orderBy (storedStrings db table urlStatusId) :=
    List.take_of_length_le (by rw [hperm.length_eq]; exact hfew)
  have hjoin := parseStringList_join_iff (orderBy (storedStrings db table urlStatusId))
  rw [← commaFree_perm hperm, ← hjoin]
  simp only [fetchStringList, hall]
  constructor
  · intro h
    exact h.same
  · intro h
    exact ⟨h, congrArg List.length h⟩

/-- The lists of a certificate are exported as they are stored if no string in them has a comma and
neither is just an empty string. -/
theorem export_certificate_lists_iff (db : Database) (urlStatusId : ℕ)
    (hsans : (storedStrings db .certificateSans urlStatusId).length ≤ maxExportRelatedRecords)
    (hoids : (storedStrings db .certificateOids urlStatusId).length ≤ maxExportRelatedRecords) :
    let exported := exportCertificate (buildExportRow db urlStatusId)
    (Survives (storedStrings db .certificateSans urlStatusId) exported.sans exported.sanCount ↔
      CommaFree (storedStrings db .certificateSans urlStatusId)) ∧
    (Survives (storedStrings db .certificateOids urlStatusId) exported.oids exported.oidCount ↔
      CommaFree (storedStrings db .certificateOids urlStatusId)) :=
  ⟨survives_fetchStringList_iff hsans, survives_fetchStringList_iff hoids⟩

/-- A database with the names of one certificate, for the URL with number 1. -/
def certificateDatabase (names : List String) : Database :=
  (runInserts (fun _ => none) .certificateSans 1 0 (insertCertificateSans names) .empty).2

/-- Two names survive the export. -/
theorem export_certificate_lists_two_names :
    let db := certificateDatabase ["www.a.org", "a.org"]
    let exported := exportCertificate (buildExportRow db 1)
    storedStrings db .certificateSans 1 = ["www.a.org", "a.org"] ∧
      Survives ["www.a.org", "a.org"] exported.sans exported.sanCount := by
  have hfree : CommaFree ["www.a.org", "a.org"] := ⟨by decide, by decide⟩
  exact ⟨rfl, ((export_certificate_lists_iff (certificateDatabase ["www.a.org", "a.org"]) 1
    (by decide) (by decide)).1).mpr hfree⟩

/-- A name with a comma does not. -/
theorem not_survives_comma_name :
    ¬∀ (db : Database) (urlStatusId : ℕ),
      (storedStrings db .certificateSans urlStatusId).length ≤ maxExportRelatedRecords →
      (storedStrings db .certificateOids urlStatusId).length ≤ maxExportRelatedRecords →
      let exported := exportCertificate (buildExportRow db urlStatusId)
      Survives (storedStrings db .certificateSans urlStatusId) exported.sans exported.sanCount ∧
        Survives (storedStrings db .certificateOids urlStatusId) exported.oids
          exported.oidCount := by
  intro h
  have hstored : storedStrings (certificateDatabase ["a,b"]) .certificateSans 1 = ["a,b"] := rfl
  have hsans := (h (certificateDatabase ["a,b"]) 1 (by decide) (by decide)).1
  have hfree := (survives_fetchStringList_iff (by decide)).mp hsans
  rw [hstored] at hfree
  exact hfree.1 "a,b" List.mem_cons_self (by decide)

end DomainStatus.Export
