import DomainStatus.Export.Queries
import DomainStatus.Lib.Groups

/-!
# Summaries

The summary of a run, after `src/summary/mod.rs` and the queries on runs of
`src/storage/insert/run.rs`. The summary is made by aggregates over the tables, and an export reads
the same tables page by page. Read `summary_agrees` first: both say the same.
-/

namespace DomainStatus.Summary

open Storage

/-- A row of `runs`. -/
structure RunSummary where
  runId : String
  version : Option String := none
  startTimeMs : ℤ
  endTimeMs : Option ℤ := none
  totalUrls : ℤ := 0
  successfulUrls : ℤ := 0
  failedUrls : ℤ := 0
  skippedUrls : ℤ := 0
  elapsedSeconds : Option F64 := none
  deriving DecidableEq

/-- Which run to summarize, and how many technologies to list. -/
structure SummaryOptions where
  runId : Option String := none
  topTechnologies : ℕ := 15

/-- What a summary shows of a run. -/
structure ScanSummary where
  run : RunSummary
  statusCounts : List (ℤ × ℕ)
  topTechnologies : List (String × ℕ)
  secretCount : ℕ
  urlsWithSecrets : ℕ
  deriving DecidableEq

/-! ## Queries -/

section Queries

variable (sorter : Sorter)

/-- `query_run_history`: the completed runs, the last one first. -/
def queryRunHistory (runs : List RunSummary) (limit : Option ℕ) : List RunSummary :=
  let history := sorter.sort (fun run => OrderDual.toDual run.startTimeMs)
    (runs.filter (·.endTimeMs.isSome))
  (limit.map history.take).getD history

/-- `query_run_by_id`. -/
def queryRunById (runs : List RunSummary) (runId : String) : Option RunSummary :=
  runs.find? (·.runId = runId)

/-- `resolve_run`: the run that is asked for, or the last completed one. -/
def resolveRun (runs : List RunSummary) (runId : Option String) : Except String RunSummary :=
  match runId with
  | some runId =>
      match queryRunById runs runId with
      | some run => .ok run
      | none => .error ("No run found with run_id '" ++ runId ++ "'")
  | none =>
      match (queryRunHistory sorter runs (some 1)).getLast? with
      | some run => .ok run
      | none => .error ("No completed runs found in the database. Run `domain-status scan` " ++
          "first, or pass --run-id for an in-progress run.")

variable (db : Database) (runId : String)

/-- The rows of `url_status` of a run. -/
def runRows : List (Row (List Value)) :=
  db.urlStatus.rows.filter fun row => statusColumn "run_id" row.value = .text runId

/-- `count_run_fact_rows`, for the rows of `url_status`. -/
def countSuccessfulUrls : ℕ :=
  db.urlStatus.rows.countP fun row => statusColumn "run_id" row.value = .text runId

/-- `query_status_counts`. Reading a status that is no number is a panic. -/
def queryStatusCounts : Option (List (ℤ × ℕ)) := do
  let statuses ← (runRows db runId).mapM fun row =>
    Export.Row.integer (statusColumn "http_status" row.value)
  some (Groups.ranked sorter id statuses)

/-- The rows of a table with the rows of `url_status` of a run that they belong to. -/
def joinRun (table : Satellite) : List (Row (List Value) × Row (List Value)) :=
  Groups.join (fun row status => decide (row.parent = status.id)) (db.satellites table).rows
    (runRows db runId)

/-- `i64::try_from(limit).unwrap_or(15)`. -/
def topLimit (limit : ℕ) : ℕ :=
  if limit < 2 ^ 63 then limit else 15

/-- `query_top_technologies`. -/
def queryTopTechnologies (limit : ℕ) : Option (List (String × ℕ)) := do
  let observed := (joinRun db runId .technologies).filter fun pair =>
    Export.Row.notImplied pair.1.value
  let names ← observed.mapM fun pair =>
    Export.Row.text (Export.Row.column (Satellite.columns .technologies) "technology_name"
      pair.1.value)
  some ((Groups.ranked sorter id names).take (topLimit limit))

/-- `query_secret_stats`: the number of secrets, and of pages with secrets. -/
def querySecretStats : ℕ × ℕ :=
  let secrets := joinRun db runId .exposedSecrets
  (secrets.length, (secrets.map (·.1.parent)).eraseDups.length)

end Queries

/-- `query_scan_summary`. The outer `Option` is a panic. -/
def queryScanSummary (sorter : Sorter) (runs : List RunSummary) (db : Database)
    (options : SummaryOptions) : Option (Except String ScanSummary) :=
  match resolveRun sorter runs options.runId with
  | .error message => some (.error message)
  | .ok run => do
      let limit := if options.topTechnologies = 0 then 15 else options.topTechnologies
      let statusCounts ← queryStatusCounts sorter db run.runId
      let topTechnologies ← queryTopTechnologies sorter db run.runId limit
      let (secretCount, urlsWithSecrets) := querySecretStats db run.runId
      some (.ok { run, statusCounts, topTechnologies, secretCount, urlsWithSecrets })

/-! ## Rows of a run -/

section Rows

open Export.Row
open Export (maxExportRelatedRecords)

variable {ι : Type} [DecidableEq ι] {readers : Readers} {write : WriteStrings}
  {records : ι → PersistedUrlRecord} {keys : ι → Value × Value} {schedule : List (Step ι)}
  {db : Database} {runId : String}

/-- The filter for a run. -/
def ofRun (runId : String) : ExportOptions where
  runId := some runId

/-- The rows that an export of the run goes over are those of the run. -/
theorem exportedRows_ofRun (sorter : Sorter) (db : Database) (runId : String) :
    (exportedRows sorter db (ofRun runId)).Perm (runRows db runId) := by
  refine (sorter.perm observedAt _).trans (List.Perm.of_eq (List.filter_congr fun row _ => ?_))
  simp [ofRun, ExportOptions.whereClause]

/-- The join with the run, page by page. -/
theorem joinRun_perm (table : Satellite) :
    (joinRun db runId table).Perm ((runRows db runId).flatMap fun status =>
      ((db.satellites table).rowsOf status.id).map fun row => (row, status)) :=
  Groups.join_perm

/-- The technologies that are observed on a page. -/
def observedNames (db : Database) (urlStatusId : ℕ) : List String :=
  (((db.satellites .technologies).rowsOf urlStatusId).filter fun row => notImplied row.value).map
    fun row => textKey .technologies "technology_name" row.value

variable {sorter : Sorter} {row : Row (List Value)} {exported : ExportRow} {key : Value × Value}
  {core : ι}

/-- No list of the kind is cut by the limit of an export. -/
def Uncut (db : Database) (table : Satellite) : Prop :=
  ∀ row ∈ db.urlStatus.rows,
    ((db.satellites table).valuesOf row.id).length ≤ maxExportRelatedRecords

omit [DecidableEq ι] in
/-- The status of a row is the exported one. -/
theorem status_eq
    (h : ExportedFrom readers write records keys schedule (ofRun runId) db row exported key core) :
    integer (statusColumn "http_status" row.value) = some exported.main.status.toNat := by
  rw [h.exported.main, h.pageFrom.value]
  rfl

omit [DecidableEq ι] in
/-- The technologies of a row are those of its record. -/
theorem technologies_eq
    (h : ExportedFrom readers write records keys schedule (ofRun runId) db row exported key core) :
    (db.satellites .technologies).valuesOf row.id =
      (distinctTechnologies (records core).technologies).map technologyRow := by
  rw [← coreRows_technologies readers]
  exact congrFun (congrArg Page.rows h.pageFrom.pageOf_eq) .technologies

omit [DecidableEq ι] in
/-- The technologies of a page are those exported, if none was cut off. -/
theorem names_perm
    (h : ExportedFrom readers write records keys schedule (ofRun runId) db row exported key core)
    (huncut : ((db.satellites .technologies).valuesOf row.id).length ≤ maxExportRelatedRecords) :
    (observedNames db row.id).Perm (exported.technologies.map TechnologyRecord.name) := by
  rw [technologies_eq h, List.length_map] at huncut
  have hperm := h.exported.technologies.perm (by
    rw [List.length_map]
    exact (List.length_filter_le _ _).trans huncut)
  have hnames : observedNames db row.id =
      (((db.satellites .technologies).valuesOf row.id).filter notImplied).map
        (textKey .technologies "technology_name") := by
    rw [observedNames, Table.valuesOf_eq_map, List.filter_map, List.map_map]
    rfl
  refine List.Perm.trans (List.Perm.of_eq ?_) (hperm.map _).symm
  rw [hnames, technologies_eq h, List.filter_map, List.map_map, List.map_map]
  simp only [Function.comp_def, notImplied_technologyRow]
  rfl

omit [DecidableEq ι] in
/-- The name of a stored technology is a text. -/
theorem text_name
    (h : ExportedFrom readers write records keys schedule (ofRun runId) db row exported key core)
    {tech : Row (List Value)} (htech : tech ∈ (db.satellites .technologies).rowsOf row.id) :
    text (column (Satellite.columns .technologies) "technology_name" tech.value) =
      some (textKey .technologies "technology_name" tech.value) := by
  have hvalue : tech.value ∈ (distinctTechnologies (records core).technologies).map
      technologyRow := by
    rw [← technologies_eq h]
    exact List.mem_map_of_mem htech
  obtain ⟨found, -, hfound⟩ := List.mem_map.mp hvalue
  rw [← hfound]
  rfl

omit [DecidableEq ι] in
/-- A row has as many secrets as its record, each key counted once. -/
theorem secrets_eq
    (h : ExportedFrom readers write records keys schedule (ofRun runId) db row exported key core) :
    ((db.satellites .exposedSecrets).valuesOf row.id).length =
      (OnConflict.lastOf secretKeyOf (((lastEnrichment (ofKey keys key schedule)).map
        records).getD blank).exposedSecrets).length := by
  have hvalues : (db.satellites .exposedSecrets).valuesOf row.id = enrichmentRows write
      (((lastEnrichment (ofKey keys key schedule)).map records).getD blank) .exposedSecrets :=
    congrFun (congrArg Page.rows (h.pageFrom.pageOf_eq.trans (compose_getD readers write _ _)))
      .exposedSecrets
  rw [hvalues, enrichmentRows_exposedSecrets, List.length_map]

omit [DecidableEq ι] in
/-- The secrets of a page are as many as those exported, if none was cut off. -/
theorem length_secrets
    (h : ExportedFrom readers write records keys schedule (ofRun runId) db row exported key core)
    (huncut : ((db.satellites .exposedSecrets).valuesOf row.id).length ≤ maxExportRelatedRecords) :
    ((db.satellites .exposedSecrets).rowsOf row.id).length = exported.exposedSecrets.length := by
  rw [secrets_eq h] at huncut
  have hperm := h.exported.exposedSecrets.perm (by rwa [List.length_map])
  rw [hperm.length_eq, List.length_map, ← secrets_eq h, Table.valuesOf_eq_map, List.length_map]

omit [DecidableEq ι] in
/-- A page has secrets if secrets are exported. -/
theorem any_secrets
    (h : ExportedFrom readers write records keys schedule (ofRun runId) db row exported key core) :
    ((db.satellites .exposedSecrets).rows.any fun secret => decide (secret.parent = row.id)) =
      decide (exported.exposedSecrets ≠ []) := by
  have hnil : (db.satellites .exposedSecrets).rowsOf row.id = [] ↔
      exported.exposedSecrets = [] := by
    rw [h.exported.exposedSecrets.eq_nil_iff (by decide), List.map_eq_nil_iff,
      ← List.length_eq_zero_iff, ← List.length_eq_zero_iff, ← secrets_eq h, Table.valuesOf_eq_map,
      List.length_map]
  rw [Bool.eq_iff_iff, decide_eq_true_eq, ne_eq, ← hnil, List.any_eq_true]
  constructor
  · rintro ⟨secret, hsecret, hparent⟩ hempty
    have hmem := Table.mem_rowsOf.mpr ⟨hsecret, of_decide_eq_true hparent⟩
    rw [hempty] at hmem
    cases hmem
  · intro hne
    obtain ⟨secret, hsecret⟩ := List.exists_mem_of_ne_nil _ hne
    obtain ⟨hrow, hparent⟩ := Table.mem_rowsOf.mp hsecret
    exact ⟨secret, hrow, decide_eq_true hparent⟩

end Rows

/-! ## Agreement -/

section Agreement

open Export.Row
open Export (maxExportRelatedRecords)

/-- The summary of a run says what the exported rows of the run say. -/
structure Agrees (sorter : Sorter) (db : Database) (runId : String) (limit : ℕ)
    (exported : List ExportRow) : Prop where
  successful : countSuccessfulUrls db runId = exported.length
  statusCounts : queryStatusCounts sorter db runId =
    some (Groups.ranked sorter (fun row => (row.main.status.toNat : ℤ)) exported)
  topTechnologies : Uncut db .technologies → queryTopTechnologies sorter db runId limit =
    some ((Groups.ranked sorter TechnologyRecord.name
      (exported.flatMap ExportRow.technologies)).take (topLimit limit))
  secretCount : Uncut db .exposedSecrets →
    (querySecretStats db runId).1 = (exported.flatMap ExportRow.exposedSecrets).length
  urlsWithSecrets : (querySecretStats db runId).2 =
    exported.countP fun row => row.exposedSecrets ≠ []

variable {ι : Type}

/-- What an export of a run has, row by row. -/
def ExportedRows (readers : Readers) (write : WriteStrings) (records : ι → PersistedUrlRecord)
    (keys : ι → Value × Value) (schedule : List (Step ι)) (sorter : Sorter) (db : Database)
    (runId : String) (exported : List ExportRow) : Prop :=
  List.Forall₂ (fun row exported => ∃ key core,
      ExportedFrom readers write records keys schedule (ofRun runId) db row exported key core)
    (exportedRows sorter db (ofRun runId)) exported

namespace ExportedRows

variable {readers : Readers} {write : WriteStrings} {records : ι → PersistedUrlRecord}
  {keys : ι → Value × Value} {schedule : List (Step ι)} {sorter second : Sorter} {db : Database}
  {runId : String} {exported : List ExportRow}

/-- Each exported row comes from a row of the run. -/
theorem forall₂_mem
    (h : ExportedRows readers write records keys schedule sorter db runId exported) :
    List.Forall₂ (fun row exported => row ∈ runRows db runId ∧ ∃ key core,
        ExportedFrom readers write records keys schedule (ofRun runId) db row exported key core)
      (exportedRows sorter db (ofRun runId)) exported :=
  (List.forall₂_and_left _ _).mpr
    ⟨fun _ hrow => (exportedRows_ofRun sorter db runId).mem_iff.mp hrow, h⟩

/-- What is said of each row is said of all rows, in whatever order they come. -/
theorem map_perm (h : ExportedRows readers write records keys schedule sorter db runId exported)
    {γ : Type} {left : Row (List Value) → γ} {right : ExportRow → γ}
    (heq : ∀ row exported, row ∈ runRows db runId ∧ (∃ key core,
      ExportedFrom readers write records keys schedule (ofRun runId) db row exported key core) →
        left row = right exported) :
    ((runRows db runId).map left).Perm (exported.map right) :=
  ((exportedRows_ofRun sorter db runId).symm.map left).trans
    (List.Perm.of_eq (h.forall₂_mem.map_eq heq))

/-- Each row of the run is exported. -/
theorem exists_of_mem
    (h : ExportedRows readers write records keys schedule sorter db runId exported)
    {row : Row (List Value)} (hrow : row ∈ runRows db runId) :
    ∃ found key core,
      ExportedFrom readers write records keys schedule (ofRun runId) db row found key core := by
  have hperm := exportedRows_ofRun sorter db runId
  obtain ⟨found, -, hfound⟩ := List.Forall₂.exists_right h (hperm.mem_iff.mpr hrow)
  exact ⟨found, hfound⟩

/-- The URLs counted are the rows exported. -/
theorem countSuccessfulUrls_eq
    (h : ExportedRows readers write records keys schedule sorter db runId exported) :
    countSuccessfulUrls db runId = exported.length := by
  have hlength : countSuccessfulUrls db runId = (runRows db runId).length :=
    List.countP_eq_length_filter
  rw [hlength, ← (exportedRows_ofRun sorter db runId).length_eq, List.Forall₂.length_eq h]

/-- The statuses counted are those exported. -/
theorem queryStatusCounts_eq
    (h : ExportedRows readers write records keys schedule sorter db runId exported) :
    queryStatusCounts second db runId =
      some (Groups.ranked second (fun row => (row.main.status.toNat : ℤ)) exported) := by
  have hstatuses : (runRows db runId).mapM (fun row =>
      integer (statusColumn "http_status" row.value)) = some ((runRows db runId).map fun row =>
        (integer (statusColumn "http_status" row.value)).getD 0) := by
    refine List.mapM_eq_some_map fun row hrow => ?_
    obtain ⟨found, key, core, hfrom⟩ := h.exists_of_mem hrow
    rw [status_eq hfrom]
    rfl
  rw [queryStatusCounts, hstatuses]
  refine congrArg some (Groups.ranked_congr ?_)
  rw [List.map_id]
  refine h.map_perm fun row exported hrow => ?_
  obtain ⟨-, key, core, hfrom⟩ := hrow
  rw [status_eq hfrom]
  rfl

/-- The names that are counted, without the limit of an export. -/
theorem queryTopTechnologies_eq
    (h : ExportedRows readers write records keys schedule sorter db runId exported) (limit : ℕ) :
    queryTopTechnologies second db runId limit = some ((Groups.ranked second id
      ((runRows db runId).flatMap fun row => observedNames db row.id)).take (topLimit limit)) := by
  have hread : ∀ pair ∈ (joinRun db runId .technologies).filter fun pair =>
      notImplied pair.1.value,
      text (column (Satellite.columns .technologies) "technology_name" pair.1.value) =
        some (textKey .technologies "technology_name" pair.1.value) := by
    intro pair hpair
    obtain ⟨hrow, hstatus, hparent⟩ := Groups.mem_join.mp (List.mem_of_mem_filter hpair)
    obtain ⟨found, key, core, hfrom⟩ := h.exists_of_mem hstatus
    exact text_name hfrom (Table.mem_rowsOf.mpr ⟨hrow, of_decide_eq_true hparent⟩)
  have hnames : (((joinRun db runId .technologies).filter fun pair =>
        notImplied pair.1.value).map fun pair =>
          textKey .technologies "technology_name" pair.1.value).Perm
      ((runRows db runId).flatMap fun row => observedNames db row.id) := by
    refine (((joinRun_perm .technologies).filter _).map _).trans (List.Perm.of_eq ?_)
    simp only [List.filter_flatMap, List.map_flatMap, List.filter_map, List.map_map,
      Function.comp_def, observedNames]
  rw [queryTopTechnologies, List.mapM_eq_some_map hread]
  refine congrArg some (congrArg (List.take (topLimit limit)) (Groups.ranked_congr ?_))
  rwa [List.map_id, List.map_id]

/-- The technologies counted are those exported. -/
theorem observedNames_perm
    (h : ExportedRows readers write records keys schedule sorter db runId exported)
    (huncut : Uncut db .technologies) :
    ((runRows db runId).flatMap fun row => observedNames db row.id).Perm
      ((exported.flatMap ExportRow.technologies).map TechnologyRecord.name) := by
  rw [List.map_flatMap]
  refine ((exportedRows_ofRun sorter db runId).symm.flatMap_right _).trans
    (h.forall₂_mem.flatMap_perm fun row exported hrow => ?_)
  obtain ⟨hmem, key, core, hfrom⟩ := hrow
  exact names_perm hfrom (huncut row (List.mem_of_mem_filter hmem))

/-- The secrets counted are those exported. -/
theorem secretCount_eq
    (h : ExportedRows readers write records keys schedule sorter db runId exported)
    (huncut : Uncut db .exposedSecrets) :
    (querySecretStats db runId).1 = (exported.flatMap ExportRow.exposedSecrets).length := by
  have hlengths : ((runRows db runId).map fun row =>
      ((db.satellites .exposedSecrets).rowsOf row.id).length).Perm
        (exported.map fun row => row.exposedSecrets.length) := by
    refine h.map_perm fun row exported hrow => ?_
    obtain ⟨hmem, key, core, hfrom⟩ := hrow
    exact length_secrets hfrom (huncut row (List.mem_of_mem_filter hmem))
  rw [querySecretStats, (joinRun_perm .exposedSecrets).length_eq, List.length_flatMap,
    List.length_flatMap]
  simpa using hlengths.sum_eq

/-- The pages with secrets are those exported with secrets. -/
theorem urlsWithSecrets_eq
    (h : ExportedRows readers write records keys schedule sorter db runId exported) :
    (querySecretStats db runId).2 = exported.countP fun row => row.exposedSecrets ≠ [] := by
  have hparents : (joinRun db runId .exposedSecrets).map (·.1.parent) =
      (joinRun db runId .exposedSecrets).map (·.2.id) := by
    refine List.map_congr_left fun pair hpair => ?_
    exact of_decide_eq_true (Groups.mem_join.mp hpair).2.2
  have hids : ((runRows db runId).map Row.id).Nodup :=
    (List.filter_sublist.map Row.id).nodup db.urlStatus.nodup
  rw [querySecretStats, hparents, joinRun, Groups.length_distinct_join hids]
  have hany : ((runRows db runId).map fun row =>
      (db.satellites .exposedSecrets).rows.any fun secret => decide (secret.parent = row.id)).Perm
        (exported.map fun row => decide (row.exposedSecrets ≠ [])) := by
    refine h.map_perm fun row exported hrow => ?_
    obtain ⟨-, key, core, hfrom⟩ := hrow
    exact any_secrets hfrom
  have hcount := hany.countP_eq id
  rw [List.countP_map, List.countP_map] at hcount
  exact hcount

/-- The summary and the export agree. -/
theorem agrees (h : ExportedRows readers write records keys schedule sorter db runId exported)
    (limit : ℕ) : Agrees second db runId limit exported where
  successful := h.countSuccessfulUrls_eq
  statusCounts := h.queryStatusCounts_eq
  topTechnologies huncut := by
    rw [h.queryTopTechnologies_eq]
    refine congrArg some (congrArg (List.take (topLimit limit)) (Groups.ranked_congr ?_))
    rw [List.map_id]
    exact h.observedNames_perm huncut
  secretCount := h.secretCount_eq
  urlsWithSecrets := h.urlsWithSecrets_eq

end ExportedRows

variable [DecidableEq ι]

end Agreement

end DomainStatus.Summary
