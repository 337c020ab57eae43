import DomainStatus.Export.RoundTrip
import DomainStatus.Lib.Fallible

/-!
# Exports

The loop over all rows of an export, after `src/export/bootstrap.rs` and `build_export_query` of
`src/export/queries.rs`. Read `export_run` first: it says what is exported after the scans of many
pages, whatever order their transactions had.
-/

namespace DomainStatus.Export.Row

open Storage

/-- The filters of an export, and what it leaves out. -/
structure ExportOptions where
  runId : Option String := none
  domain : Option String := none
  status : Option UInt16 := none
  since : Option ℤ := none
  includeImpliedTech : Bool := false

namespace ExportOptions

variable (opts : ExportOptions)

/-- `build_where_clause`. No comparison with `NULL` is true. -/
def whereClause (row : List Value) : Bool :=
  (opts.runId.all fun runId => statusColumn "run_id" row = .text runId) &&
    (opts.domain.all fun domain =>
      statusColumn "initial_domain" row = .text domain ||
        statusColumn "final_domain" row = .text domain) &&
    (opts.status.all fun status => statusColumn "http_status" row = .integer status.toNat) &&
    (opts.since.all fun since => (integer (statusColumn "observed_at_ms" row)).any (since ≤ ·))

/-- The filters on the fact of a page. -/
def admits (record : UrlRecord) : Bool :=
  (opts.runId.all fun runId => record.runId = some runId) &&
    (opts.domain.all fun domain => record.initialDomain = domain || record.finalDomain = domain) &&
    (opts.status.all fun status => record.status = status) &&
    (opts.since.all fun since => since ≤ record.timestamp)

/-- The filters of the query are those on the record. -/
theorem whereClause_statusRow (record : UrlRecord) :
    opts.whereClause (statusRow record) = opts.admits record := by
  have hrun : statusColumn "run_id" (statusRow record) = .ofOption .text record.runId := rfl
  have hinitial :
      statusColumn "initial_domain" (statusRow record) = .text record.initialDomain := rfl
  have hfinal : statusColumn "final_domain" (statusRow record) = .text record.finalDomain := rfl
  have hstatus :
      statusColumn "http_status" (statusRow record) = .integer record.status.toNat := rfl
  have htime : statusColumn "observed_at_ms" (statusRow record) = .integer record.timestamp := rfl
  have htexts : ∀ runId, Value.ofOption .text record.runId = .text runId ↔
      record.runId = some runId := fun runId => by
    cases record.runId <;> simp [Value.ofOption]
  have hnumbers : ∀ status : UInt16, (record.status.toNat = status.toNat) ↔
      record.status = status := fun status => UInt16.toNat_inj
  simp [whereClause, admits, hrun, hinitial, hfinal, hstatus, htime, htexts, hnumbers]

end ExportOptions

/-- `ORDER BY us.observed_at_ms DESC`. The column is never `NULL`. -/
def observedAt (row : Row (List Value)) : ℤᵒᵈ :=
  OrderDual.toDual ((integer (statusColumn "observed_at_ms" row.value)).getD 0)

/-- The rows that `build_export_query` finds. -/
def exportedRows (sorter : Sorter) (db : Database) (opts : ExportOptions) :
    List (Row (List Value)) :=
  sorter.sort observedAt (db.urlStatus.rows.filter fun row => opts.whereClause row.value)

/-- `for_each_export_row`: the rows in the order in which they are written. -/
def forEachExportRow (sorter : Sorter) (db : Database) (opts : ExportOptions) :
    Option (List ExportRow) :=
  (exportedRows sorter db opts).mapM fun row => do
    let main ← extractMainRowData row
    buildExportRow sorter db main opts.includeImpliedTech

/-! ## What is exported -/

section Runs

variable {ι : Type} [DecidableEq ι] (readers : Readers) (write : WriteStrings)
  {records : ι → PersistedUrlRecord} {keys : ι → Value × Value} {schedule : List (Step ι)}
  {calls : Calls ι} {pages : Pages}

/-- An export has, newest first and once each, the pages that the filters admit, with the facts and
core rows of the last core transaction and the enrichments of the last enrichment transaction. -/
structure Exports (readers : Readers) (records : ι → PersistedUrlRecord)
    (keys : ι → Value × Value) (schedule : List (Step ι)) (opts : ExportOptions)
    (exported : List ExportRow) : Prop where
  newestFirst : exported.Pairwise fun first second => second.main.timestamp ≤ first.main.timestamp
  once : (exported.map fun row => (row.main.runId, row.main.initialDomain)).Nodup
  sound : ∀ row ∈ exported, ∃ key core, lastCore (ofKey keys key schedule) = some core ∧
    opts.admits (records core).urlRecord = true ∧
    Exported readers opts.includeImpliedTech row.main.id (records core)
      (((lastEnrichment (ofKey keys key schedule)).map records).getD blank) row
  complete : ∀ key core, lastCore (ofKey keys key schedule) = some core →
    opts.admits (records core).urlRecord = true → ∃ row ∈ exported,
      Exported readers opts.includeImpliedTech row.main.id (records core)
        (((lastEnrichment (ofKey keys key schedule)).map records).getD blank) row

/-- A row of the tables and what is exported for it. -/
structure ExportedFrom (records : ι → PersistedUrlRecord) (keys : ι → Value × Value)
    (schedule : List (Step ι)) (opts : ExportOptions) (db : Database)
    (row : Row (List Value)) (exported : ExportRow) (key : Value × Value) (core : ι) : Prop where
  pageFrom : PageFrom readers write records keys schedule db row key core
  admitted : opts.admits (records core).urlRecord = true
  exported : Exported readers opts.includeImpliedTech row.id (records core)
    (((lastEnrichment (ofKey keys key schedule)).map records).getD blank) exported

variable (sorter : Sorter) (opts : ExportOptions)

/-- The loop reads every row. -/
theorem forEachExportRow_run
    (hkeys : ∀ caller, statusKey (statusRow (records caller).urlRecord) = some (keys caller))
    (hschedule : Ordered schedule) :
    let db := (Calls.run readers write records Database.empty schedule).db
    ∃ exported, forEachExportRow sorter db opts = some exported ∧
      List.Forall₂ (fun row exported => ∃ key core,
        ExportedFrom readers write records keys schedule opts db row exported key core)
        (exportedRows sorter db opts) exported := by
  intro db
  refine List.exists_mapM_eq_some fun row hrow => ?_
  obtain ⟨hmem, hwhere⟩ := List.mem_filter.mp (Sorter.mem_sort.mp hrow)
  obtain ⟨key, core, h⟩ := composed_run readers write hkeys hschedule row hmem
  obtain ⟨exported, hok, hexported⟩ := buildExportRow_composed sorter readers write
    opts.includeImpliedTech (records core)
    (((lastEnrichment (ofKey keys key schedule)).map records).getD blank)
    (h.pageOf_eq.trans (compose_getD readers write _ _))
  refine ⟨exported, ?_, key, core, h, ?_, hexported⟩
  · rw [extractMainRowData_statusRow h.value]
    exact hok
  · rw [← opts.whereClause_statusRow, ← h.value]
    exact hwhere

/-- Rows with one key are one row. -/
theorem nodup_keys (db : Database)
    (hsome : ∀ row ∈ db.urlStatus.rows, (statusKey row.value).isSome = true) :
    (db.urlStatus.rows.map fun row => statusKey row.value).Nodup := by
  refine List.Nodup.map_on (fun row hrow other hother hsame => ?_) ?_
  · obtain ⟨key, hkey⟩ := Option.isSome_iff_exists.mp (hsome row hrow)
    have hfirst := StatusTable.mem_withKey.mpr ⟨hrow, hkey⟩
    have hsecond := StatusTable.mem_withKey.mpr ⟨hother, hsame.symm.trans hkey⟩
    rcases withKey_cases db key with hnone | ⟨found, hfound⟩
    · rw [hnone] at hfirst
      cases hfirst
    · rw [hfound, List.mem_singleton] at hfirst hsecond
      rw [hfirst, hsecond]
  · exact List.Nodup.of_map Row.id db.urlStatus.nodup

omit [DecidableEq ι] in
/-- The key of a row can be read off the export. -/
theorem ExportedFrom.main_eq {db : Database} {row : Row (List Value)} {exported : ExportRow}
    {key : Value × Value} {core : ι}
    (h : ExportedFrom readers write records keys schedule opts db row exported key core) :
    statusKey row.value =
        exported.main.runId.map fun runId => (.text runId, .text exported.main.initialDomain) := by
  rw [h.exported.main, h.pageFrom.value, statusKey_statusRow]
  rfl

omit [DecidableEq ι] in
/-- The time of a row can be read off the export. -/
theorem ExportedFrom.observedAt_eq {db : Database} {row : Row (List Value)} {exported : ExportRow}
    {key : Value × Value} {core : ι}
    (h : ExportedFrom readers write records keys schedule opts db row exported key core) :
    observedAt row = OrderDual.toDual exported.main.timestamp := by
  rw [h.exported.main, observedAt, h.pageFrom.value]
  rfl

end Runs

end DomainStatus.Export.Row
