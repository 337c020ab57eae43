import DomainStatus.Export.Row
import DomainStatus.Lib.Trace
import DomainStatus.Storage.Pages
import Mathlib.Algebra.BigOperators.Group.List.Basic

/-!
# Counts of partial failures

`finalize_scan` of `src/run/finalize.rs` compares two counts of the partial failures of a run: that
of the tasks, which record in `RuntimeMetrics` what their calls have inserted, and that of the rows
of `url_partial_failures`. Read `partial_failures_counted_iff` first: the rows are never more, and
they are fewer exactly if a transaction has replaced some. By `partial_failures_counted` this needs
two calls with one key.
-/

namespace DomainStatus.Storage

open Trace

open Export.Row (column)

/-- The counters of `RuntimeMetrics` for partial failures. -/
structure RuntimeMetrics where
  partialFailureRows : ℕ := 0
  satelliteInsertErrors : ℕ := 0

/-- Adds the numbers of one call. -/
def RuntimeMetrics.recordPartialFailures (metrics : RuntimeMetrics)
    (rows satelliteInsertErrors : ℕ) : RuntimeMetrics where
  partialFailureRows :=
    if 0 < rows then metrics.partialFailureRows + rows else metrics.partialFailureRows
  satelliteInsertErrors :=
    if 0 < satelliteInsertErrors then metrics.satelliteInsertErrors + satelliteInsertErrors
    else metrics.satelliteInsertErrors

/-- What the database counts for a run. -/
structure RunPartialFailureCounts where
  total : ℕ
  satelliteInsertErrors : ℕ

/-- The condition `run_id = ?`. -/
def hasRunId (runId : String) (failure : List Value) : Bool :=
  column (Satellite.columns .partialFailures) "run_id" failure = .text runId

/-- The condition `error_type = ?` with the satellite insert errors. -/
def isSatelliteInsertError (failure : List Value) : Bool :=
  column (Satellite.columns .partialFailures) "error_type" failure =
    .text ErrorHandling.ErrorType.satelliteInsertError.asStr

/-- The rows of a run, and those of satellite inserts among them. -/
def countRunPartialFailures (db : Database) (runId : String) : RunPartialFailureCounts where
  total := (db.satellites .partialFailures).rows.countP fun row => hasRunId runId row.value
  satelliteInsertErrors := (db.satellites .partialFailures).rows.countP fun row =>
    hasRunId runId row.value && isSatelliteInsertError row.value

/-! ## Tasks that count -/

/-- The calls of a run with the counters. What a call has returned waits until its task records
it. -/
structure Metered (ι : Type) where
  calls : Calls ι
  returned : List UrlUpsertOutcome := []
  metrics : RuntimeMetrics := {}

/-- A transaction of a call, or the record of an outcome. -/
inductive MeteredEvent (ι : Type) where
  | core (faults : Faults) (caller : ι)
  | enrichment (faults : Faults) (caller : ι)
  | record (index : ℕ)

variable {ι : Type} [DecidableEq ι]

/-- A transaction of a call, or the end of `persist` in a task whose call has returned. -/
def Metered.step (readers : Readers) (write : WriteStrings) (records : ι → PersistedUrlRecord)
    (state : Metered ι) : MeteredEvent ι → Option (Metered ι)
  | .core faults caller =>
      some { state with calls := state.calls.attempt readers write records faults (.core caller) }
  | .enrichment faults caller => do
      let calls := state.calls.attempt readers write records faults (.enrichment caller)
      let outcome ← calls.upserts caller
      some { state with calls := calls, returned := state.returned ++ [outcome] }
  | .record index => do
      let outcome ← state.returned[index]?
      some { state with
        returned := state.returned.eraseIdx index
        metrics := state.metrics.recordPartialFailures outcome.partialFailuresInserted
          outcome.satelliteInsertErrorsInserted }

/-! ## Two kinds of failures -/

/-- What is counted. -/
inductive Counted where
  | all | satelliteInsertErrors

namespace Counted

/-- The row is counted for the run. -/
def ofRow (runId : String) : Counted → List Value → Bool
  | all, failure => hasRunId runId failure
  | satelliteInsertErrors, failure => hasRunId runId failure && isSatelliteInsertError failure

/-- The failure is counted. -/
def ofFailure : Counted → UrlPartialFailureRecord → Bool
  | all, _ => true
  | satelliteInsertErrors, failure => failure.errorType = .satelliteInsertError

/-- What the database has counted. -/
def stored : Counted → RunPartialFailureCounts → ℕ
  | all, counts => counts.total
  | satelliteInsertErrors, counts => counts.satelliteInsertErrors

/-- What an outcome says was inserted. -/
def inserted : Counted → UrlUpsertOutcome → ℕ
  | all, outcome => outcome.partialFailuresInserted
  | satelliteInsertErrors, outcome => outcome.satelliteInsertErrorsInserted

/-- What the summary of a transaction says was inserted. -/
def ofSummary : Counted → EnrichmentInsertSummary → ℕ
  | all, summary => summary.partialFailuresInserted
  | satelliteInsertErrors, summary => summary.satelliteInsertErrorsInserted

/-- What the metrics have counted. -/
def recorded : Counted → RuntimeMetrics → ℕ
  | all, metrics => metrics.partialFailureRows
  | satelliteInsertErrors, metrics => metrics.satelliteInsertErrors

/-- What the tasks count, with what they have still to record. -/
def live (counted : Counted) (state : Metered ι) : ℕ :=
  counted.recorded state.metrics + (state.returned.map counted.inserted).sum

variable {counted : Counted} {runId : String}

omit [DecidableEq ι] in
/-- When every task has recorded its outcome, the metrics have all that the tasks count. -/
theorem live_of_returned_eq_nil {state : Metered ι} (h : state.returned = []) :
    counted.live state = counted.recorded state.metrics := by
  rw [live, h, List.map_nil, List.sum_nil, Nat.add_zero]

/-- The stored number is a number of rows. -/
theorem stored_eq (db : Database) :
    counted.stored (countRunPartialFailures db runId) =
      (db.satellites .partialFailures).rows.countP fun row => counted.ofRow runId row.value := by
  cases counted <;> rfl

/-- A counted row is one of the run. -/
theorem hasRunId_of_ofRow {failure : List Value} (h : counted.ofRow runId failure = true) :
    hasRunId runId failure = true := by
  cases counted with
  | all => exact h
  | satelliteInsertErrors => exact (Bool.and_eq_true_iff.mp h).1

omit [DecidableEq ι] in
/-- What is recorded of a transaction is added. -/
theorem recorded_recordPartialFailures (metrics : RuntimeMetrics) (outcome : UrlUpsertOutcome) :
    counted.recorded (metrics.recordPartialFailures outcome.partialFailuresInserted
      outcome.satelliteInsertErrorsInserted) =
      counted.recorded metrics + counted.inserted outcome := by
  cases counted
  · simp only [recorded, inserted, RuntimeMetrics.recordPartialFailures]
    split_ifs <;> omega
  · simp only [recorded, inserted, RuntimeMetrics.recordPartialFailures]
    split_ifs <;> omega

/-- Only the type itself is written so. -/
theorem asStr_eq_satelliteInsertError {errorType : ErrorHandling.ErrorType} :
    errorType.asStr = ErrorHandling.ErrorType.satelliteInsertError.asStr ↔
      errorType = .satelliteInsertError := by
  cases errorType <;> decide

/-- A row is counted as its failure is. -/
theorem ofRow_partialFailureRow {failure : UrlPartialFailureRecord}
    (h : failure.runId = some runId) :
    counted.ofRow runId (partialFailureRow failure) = counted.ofFailure failure := by
  have hrun : hasRunId runId (partialFailureRow failure) = true := by
    show decide (Value.ofOption .text failure.runId = .text runId) = true
    simp [h, Value.ofOption]
  cases counted with
  | all => exact hrun
  | satelliteInsertErrors =>
      rw [ofRow, hrun, Bool.true_and]
      show decide (Value.text failure.errorType.asStr = _) =
        decide (failure.errorType = .satelliteInsertError)
      rw [decide_eq_decide, Value.text.injEq, asStr_eq_satelliteInsertError]

end Counted

/-! ## One transaction -/

section Transaction

variable {faults : Faults} {readers : Readers} {write : WriteStrings} {record : PersistedUrlRecord}
  {runId : String} {urlStatusId : ℕ} {db after : Database} {counted : Counted}

/-- The insertions that do not fail are stored and counted. -/
theorem insertPartialFailures_stored (faults : Faults) (urlStatusId index : ℕ)
    (failures : List UrlPartialFailureRecord) (summary : EnrichmentInsertSummary) (db : Database) :
    let finished := insertPartialFailures faults urlStatusId index failures summary db
    ∃ stored : List UrlPartialFailureRecord, stored ⊆ failures ∧
      (finished.2.satellites .partialFailures).valuesOf urlStatusId =
        (db.satellites .partialFailures).valuesOf urlStatusId ++ stored.map partialFailureRow ∧
      ∀ counted : Counted, counted.ofSummary finished.1 =
        counted.ofSummary summary + stored.countP counted.ofFailure := by
  induction failures generalizing index summary db with
  | nil => exact ⟨[], List.Subset.refl _, (List.append_nil _).symm, fun _ => rfl⟩
  | cons failure rest ih =>
      cases hfault : faults (.insert .partialFailures index) with
      | some message =>
          simp only [insertPartialFailures, hfault]
          obtain ⟨stored, hsubset, hvalues, hcount⟩ := ih (index + 1) { summary with
            partialFailuresFailed := summary.partialFailuresFailed + 1 } db
          refine ⟨stored, List.subset_cons_of_subset _ hsubset, hvalues, fun counted => ?_⟩
          rw [hcount counted]
          cases counted <;> rfl
      | none =>
          simp only [insertPartialFailures, hfault]
          obtain ⟨stored, hsubset, hvalues, hcount⟩ := ih (index + 1) { summary with
            partialFailuresInserted := summary.partialFailuresInserted + 1
            satelliteInsertErrorsInserted := summary.satelliteInsertErrorsInserted +
              if failure.errorType = .satelliteInsertError then 1 else 0 }
            (db.insert .partialFailures urlStatusId
              (insertUrlPartialFailure { failure with urlStatusId }))
          have hinsert : ((db.insert .partialFailures urlStatusId
              (insertUrlPartialFailure { failure with urlStatusId })).satellites
                .partialFailures).valuesOf urlStatusId =
              (db.satellites .partialFailures).valuesOf urlStatusId ++
                [partialFailureRow failure] := by
            rw [Database.insert_valuesOf]
            simp [insertUrlPartialFailure, Insert.onConflict, OnConflict.merge, OnConflict.clash,
              partialFailureRow]
          refine ⟨failure :: stored, List.cons_subset_cons _ hsubset, ?_, fun counted => ?_⟩
          · rw [hvalues, hinsert, List.append_assoc, List.singleton_append, List.map_cons]
          · rw [hcount counted]
            cases counted with
            | all =>
                rw [List.countP_cons_of_pos rfl]
                simp only [Counted.ofSummary]
                omega
            | satelliteInsertErrors =>
                simp only [Counted.ofSummary, Counted.ofFailure, List.countP_cons,
                  decide_eq_true_eq]
                omega

/-- The writers count no partial failure. -/
theorem ofSummary_writeEnrichments (counted : Counted) :
    counted.ofSummary
      (writeEnrichments write faults urlStatusId record { db := db }).summary = 0 := by
  have hnote : ∀ (summary : EnrichmentInsertSummary) table result,
      counted.ofSummary (summary.note table result) = counted.ofSummary summary := by
    cases counted <;> exact fun _ _ _ => rfl
  have htables : ∀ (inserts : Satellite → Option (List Insert)) tables (state : EnrichmentState),
      counted.ofSummary (writeTables faults urlStatusId inserts tables state).summary =
        counted.ofSummary state.summary := by
    intro inserts tables
    induction tables with
    | nil => exact fun _ => rfl
    | cons table rest ih =>
        intro state
        rw [writeTables, List.foldl_cons, ← writeTables, ih]
        unfold tryEnrich
        split
        · rfl
        · split <;> exact hnote _ _ _
  have hsecrets : ∀ state : EnrichmentState, counted.ofSummary
      (insertExposedSecretsInTx faults urlStatusId record.exposedSecrets state).summary =
        counted.ofSummary state.summary := by
    intro state
    unfold insertExposedSecretsInTx
    split
    · rfl
    · split
      · split <;> exact hnote _ _ _
      · exact hnote _ _ _
  rw [writeEnrichments, htables, hsecrets, htables]
  cases counted <;> rfl

variable (counted) in
/-- A transaction that commits has stored what it has counted, under the run of its record. -/
theorem valuesOf_insertEnrichmentTxn {coreFailures : List SatelliteWriteFailure}
    {summary : EnrichmentInsertSummary}
    (hok : insertEnrichmentTxn write faults db urlStatusId record coreFailures =
      .ok (summary, after)) (hrun : record.urlRecord.runId = some runId)
    (hfailures : ∀ failure ∈ record.partialFailures, failure.runId = some runId) :
    ((after.satellites .partialFailures).valuesOf urlStatusId).countP (counted.ofRow runId) =
      counted.ofSummary summary := by
  obtain ⟨start, hdelete, hfinished⟩ := insertEnrichmentTxn_eq_ok hok
  have hstart := deleteChildRows_ok hdelete
  have hother := (writeEnrichments_spec write faults record fun table htable =>
    (hstart table).1 (by revert htable; cases table <;> decide)).2.1
  obtain ⟨stored, hsubset, hvalues, hcount⟩ := insertPartialFailures_stored faults urlStatusId 0
    (allPartialFailures urlStatusId record (coreFailures ++
      (writeEnrichments write faults urlStatusId record { db := start }).insertFailures))
    (writeEnrichments write faults urlStatusId record { db := start }).summary
    (writeEnrichments write faults urlStatusId record { db := start }).db
  rw [← hfinished] at hvalues hcount
  rw [hcount counted, ofSummary_writeEnrichments, hvalues, hother _ (by decide),
    (hstart .partialFailures).1 (by decide), List.nil_append, List.countP_map, Nat.zero_add]
  refine List.countP_congr fun failure hfailure => ?_
  have hfailureRun : failure.runId = some runId := by
    rcases List.mem_append.mp (hsubset hfailure) with hscan | hwriter
    · exact hfailures failure hscan
    · obtain ⟨written, -, rfl⟩ := List.mem_map.mp hwriter
      exact hrun
  rw [Function.comp_apply, Counted.ofRow_partialFailureRow hfailureRun]

/-- The rows of a page and the rows of the other pages. -/
theorem countP_rows (table : Table (List Value)) (urlStatusId : ℕ) (p : List Value → Bool) :
    table.rows.countP (fun row => p row.value) =
      (table.valuesOf urlStatusId).countP p +
        (table.rowsExcept urlStatusId).countP fun row => p row.value := by
  rw [Table.valuesOf, List.countP_map, Table.rowsExcept,
    List.countP_eq_countP_filter_add table.rows _ fun row => decide (row.parent = urlStatusId)]
  simp [Function.comp_def]

/-- An enrichment transaction that is rolled back changes nothing. -/
theorem insertEnrichmentData_rolledBack {coreFailures : List SatelliteWriteFailure}
    (hback : RolledBack faults) :
    insertEnrichmentData write faults db urlStatusId record coreFailures =
      ({ partialFailuresFailed := coreFailures.length + record.partialFailures.length }, db) := by
  unfold insertEnrichmentData
  cases hok : insertEnrichmentTxn write faults db urlStatusId record coreFailures with
  | ok _ => exact absurd hback ((exists_ok_iff _ _ _ _ _).mp ⟨_, hok⟩)
  | error _ => rfl

variable (counted) in
/-- The counted rows of the page are replaced by those that the transaction counts. -/
theorem stored_insertEnrichmentTxn {coreFailures : List SatelliteWriteFailure}
    {summary : EnrichmentInsertSummary}
    (hok : insertEnrichmentTxn write faults db urlStatusId record coreFailures =
      .ok (summary, after)) (hrun : record.urlRecord.runId = some runId)
    (hfailures : ∀ failure ∈ record.partialFailures, failure.runId = some runId) :
    counted.stored (countRunPartialFailures after runId) +
        ((db.satellites .partialFailures).valuesOf urlStatusId).countP (counted.ofRow runId) =
      counted.stored (countRunPartialFailures db runId) + counted.ofSummary summary := by
  have hothers := (isolated_insertEnrichmentTxn hok).rows .partialFailures
  have hpage := valuesOf_insertEnrichmentTxn counted hok hrun hfailures
  rw [Counted.stored_eq, Counted.stored_eq, countP_rows _ urlStatusId, hpage, hothers,
    countP_rows (db.satellites .partialFailures) urlStatusId]
  omega

/-- The core transaction leaves the partial failures. -/
theorem partialFailures_insertUrlRecordImpl {outcome : UrlUpsertOutcome}
    (hok : insertUrlRecordImpl readers faults db record = .ok (outcome, after)) :
    after.satellites .partialFailures = db.satellites .partialFailures := by
  have hcleaned : ∀ status : StatusTable, (deleteChildRows faults outcome.id Satellite.core
      { db with urlStatus := status }).2.satellites .partialFailures =
        db.satellites .partialFailures := by
    intro status
    rw [(deleteChildRows_eq faults outcome.id Satellite.core _).1, foldl_deleteOf_satellites_ne]
    exact fun hmem => absurd ((List.takeWhile_sublist _).subset hmem) (by decide)
  obtain ⟨status, inserted, -, ⟨-, rfl, -⟩ | ⟨-, result, rfl, -, rfl⟩⟩ := insertUrlRecordImpl_ok hok
  · exact hcleaned status
  · rw [writeCoreSatellites_satellites_ne _ _ _ _ _ (by decide), hcleaned]

end Transaction

/-! ## Runs -/

section Runs

variable {readers : Readers} {write : WriteStrings} {records : ι → PersistedUrlRecord}
  {runId : String} {counted : Counted} {state next : Metered ι}

/-- The transaction commits, and there are failures under its page that it replaces. -/
def Replaces (runId : String) (counted : Counted) (state : Metered ι) : MeteredEvent ι → Prop
  | .enrichment faults caller => ¬ RolledBack faults ∧
      ∃ upsert, state.calls.upserts caller = some upsert ∧
        ∃ failure ∈ (state.calls.db.satellites .partialFailures).valuesOf upsert.id,
          counted.ofRow runId failure = true
  | _ => False

/-- All that a record says belongs to a run. -/
structure OfRun (runId : String) (record : PersistedUrlRecord) : Prop where
  page : record.urlRecord.runId = some runId
  failures : ∀ failure ∈ record.partialFailures, failure.runId = some runId

/-- The rows and those that were replaced are what the tasks count. -/
def Drift (runId : String) (counted : Counted) (replaced : ℕ) (state : Metered ι) : Prop :=
  counted.live state =
    counted.stored (countRunPartialFailures state.calls.db runId) + replaced

/-- Recording keeps the drift. -/
theorem drift_record {replaced index : ℕ} (h : Drift runId counted replaced state)
    (hstep : state.step readers write records (.record index) = some next) :
    Drift runId counted replaced next := by
  cases hreturned : state.returned[index]? with
  | none => simp [Metered.step, hreturned] at hstep
  | some outcome =>
      simp only [Metered.step, hreturned, Option.bind_eq_bind, Option.bind_some,
        Option.some.injEq] at hstep
      subst hstep
      obtain ⟨hindex, rfl⟩ := List.getElem?_eq_some_iff.mp hreturned
      have hsum := (List.getElem_cons_eraseIdx_perm hindex).map counted.inserted
      rw [List.map_cons] at hsum
      have hsum := hsum.sum_eq
      rw [List.sum_cons] at hsum
      unfold Drift Counted.live at h ⊢
      simp only [Counted.recorded_recordPartialFailures]
      rw [← h, ← hsum]
      omega

/-- A core transaction keeps the drift. -/
theorem drift_core {replaced : ℕ} {faults : Faults} {caller : ι}
    (h : Drift runId counted replaced state)
    (hstep : state.step readers write records (.core faults caller) = some next) :
    Drift runId counted replaced next := by
  cases hstep
  unfold Drift at h ⊢
  rw [Counted.stored_eq] at h ⊢
  refine Eq.trans h ?_
  simp only [Calls.attempt]
  rcases hok : insertUrlRecordImpl readers faults state.calls.db (records caller) with
    _ | ⟨outcome, after⟩
  · rfl
  · rw [partialFailures_insertUrlRecordImpl hok]

/-- An enrichment transaction keeps the drift. -/
theorem drift_enrichment {replaced : ℕ} {faults : Faults} {caller : ι}
    (hrun : OfRun runId (records caller)) (h : Drift runId counted replaced state)
    (hstep : state.step readers write records (.enrichment faults caller) = some next) :
    ∃ more, Drift runId counted (replaced + more) next ∧
      (more = 0 ↔ ¬ Replaces runId counted state (.enrichment faults caller)) := by
  cases hupsert : state.calls.upserts caller with
  | none => simp [Metered.step, Calls.attempt, hupsert] at hstep
  | some upsert =>
      simp only [Metered.step, Calls.attempt, hupsert, Option.bind_eq_bind,
        Function.update_self, Option.bind_some, Option.some.injEq] at hstep
      subst hstep
      unfold Drift Counted.live at h ⊢
      simp only [List.map_append, List.sum_append, List.map_singleton, List.sum_singleton]
      rw [Counted.stored_eq] at h ⊢
      by_cases hback : RolledBack faults
      · refine ⟨0, ?_, by simp [Replaces, hback]⟩
        rw [insertEnrichmentData_rolledBack hback, ← Nat.add_assoc, h]
        cases counted <;> rfl
      · obtain ⟨⟨summary, after⟩, hok⟩ := (exists_ok_iff upsert.id write state.calls.db
          (records caller) upsert.satelliteInsertFailures).mpr hback
        have hdata : insertEnrichmentData write faults state.calls.db upsert.id (records caller)
            upsert.satelliteInsertFailures = (summary, after) := by
          rw [insertEnrichmentData, hok]
        have hstored := stored_insertEnrichmentTxn counted hok hrun.page hrun.failures
        refine ⟨((state.calls.db.satellites .partialFailures).valuesOf upsert.id).countP
          (counted.ofRow runId), ?_, ?_⟩
        · rw [Counted.stored_eq, Counted.stored_eq] at hstored
          rw [hdata]
          dsimp only
          have hinserted : counted.inserted { upsert with
              partialFailuresInserted := summary.partialFailuresInserted
              satelliteInsertErrorsInserted := summary.satelliteInsertErrorsInserted } =
              counted.ofSummary summary := by cases counted <;> rfl
          rw [hinserted]
          omega
        · rw [List.countP_eq_zero]
          constructor
          · rintro hnone ⟨-, found, hfound, failure, hfailure, hcounted⟩
            rw [hupsert, Option.some.injEq] at hfound
            subst hfound
            exact hnone failure hfailure hcounted
          · exact fun hkept failure hfailure hcounted =>
              hkept ⟨hback, upsert, hupsert, failure, hfailure, hcounted⟩

/-- One step adds the rows that it replaces. -/
theorem drift_step (hrecords : ∀ caller, OfRun runId (records caller)) {replaced : ℕ}
    {event : MeteredEvent ι} (h : Drift runId counted replaced state)
    (hstep : state.step readers write records event = some next) :
    ∃ more, Drift runId counted (replaced + more) next ∧
      (more = 0 ↔ ¬ Replaces runId counted state event) := by
  cases event with
  | core faults caller => exact ⟨0, drift_core h hstep, by simp [Replaces]⟩
  | enrichment faults caller => exact drift_enrichment (hrecords caller) h hstep
  | record index => exact ⟨0, drift_record h hstep, by simp [Replaces]⟩

/-- A run adds the rows that its steps replace. -/
theorem drift_run (hrecords : ∀ caller, OfRun runId (records caller)) {replaced : ℕ}
    {final : Metered ι} {events : List (MeteredEvent ι)} (h : Drift runId counted replaced state)
    (hrun : runTrace (Metered.step readers write records) state events = some final) :
    ∃ more, Drift runId counted (replaced + more) final ∧
      (more = 0 ↔ Along (Metered.step readers write records)
        (fun state event => ¬ Replaces runId counted state event) state events) := by
  induction events generalizing state replaced with
  | nil =>
      cases hrun
      exact ⟨0, h, by simp [Along]⟩
  | cons event rest ih =>
      obtain ⟨next, hnext, hrest⟩ := runTrace_cons_eq_some.mp hrun
      obtain ⟨first, hfirst, hkept⟩ := drift_step hrecords h hnext
      obtain ⟨more, hmore, halong⟩ := ih hfirst hrest
      refine ⟨first + more, by rwa [← Nat.add_assoc], ?_⟩
      rw [Nat.add_eq_zero_iff, hkept, halong, Along, hnext]
      simp

variable (counted) in
/-- At the end the rows and those that were replaced are what the tasks have counted. -/
theorem drift_final (hrecords : ∀ caller, OfRun runId (records caller)) {before : Database}
    (hbefore : (countRunPartialFailures before runId).total = 0) {events : List (MeteredEvent ι)}
    {final : Metered ι} (hrun : runTrace (Metered.step readers write records)
      { calls := { db := before } } events = some final) :
    ∃ more, Drift runId counted more final ∧
      (more = 0 ↔ Along (Metered.step readers write records)
        (fun state event => ¬ Replaces runId counted state event)
        { calls := { db := before } } events) := by
  have hnone : counted.stored (countRunPartialFailures before runId) = 0 := by
    have hall : ∀ row ∈ (before.satellites .partialFailures).rows,
        ¬ hasRunId runId row.value = true := List.countP_eq_zero.mp hbefore
    rw [Counted.stored_eq, List.countP_eq_zero]
    exact fun row hrow hcounted => hall row hrow (Counted.hasRunId_of_ofRow hcounted)
  have hstart : Drift runId counted 0 ({ calls := { db := before } } : Metered ι) := by
    rw [Drift, hnone]
    cases counted <;> rfl
  obtain ⟨more, hdrift, halong⟩ := drift_run hrecords hstart hrun
  rw [Nat.zero_add] at hdrift
  exact ⟨more, hdrift, halong⟩

/-- In whatever order the transactions of the calls come, and whatever statements fail, there are
never more rows than the tasks have counted, and exactly as many if no transaction has replaced
rows. What they have counted is in the metrics once every task has recorded its outcome. -/
theorem partial_failures_counted_iff (readers : Readers) (write : WriteStrings)
    (records : ι → PersistedUrlRecord) (runId : String)
    (hrecords : ∀ caller, OfRun runId (records caller)) (before : Database)
    (hbefore : (countRunPartialFailures before runId).total = 0) (events : List (MeteredEvent ι))
    (final : Metered ι)
    (hrun : runTrace (Metered.step readers write records) { calls := { db := before } } events =
      some final) (counted : Counted) :
    counted.stored (countRunPartialFailures final.calls.db runId) ≤ counted.live final ∧
      (counted.stored (countRunPartialFailures final.calls.db runId) = counted.live final ↔
        Along (Metered.step readers write records)
          (fun state event => ¬ Replaces runId counted state event)
          { calls := { db := before } } events) ∧
      (final.returned = [] → counted.live final = counted.recorded final.metrics) := by
  obtain ⟨more, hdrift, halong⟩ := drift_final counted hrecords hbefore hrun
  refine ⟨?_, ?_, Counted.live_of_returned_eq_nil⟩
  · unfold Drift at hdrift
    omega
  · rw [← halong]
    unfold Drift at hdrift
    omega

/-- Records of one run, each with a lookup that has failed. -/
def withFailure (records : Caller → PersistedUrlRecord) (caller : Caller) :
    PersistedUrlRecord where
  __ := records caller
  partialFailures := [⟨0, .dnsNsLookupError, "timeout", 7, some "run"⟩]

/-- A failure of the run does not change the run. -/
theorem ofRun_withFailure {records : Caller → PersistedUrlRecord}
    (h : ∀ caller, (records caller).urlRecord.runId = some "run") (caller : Caller) :
    OfRun "run" (withFailure records caller) :=
  ⟨h caller, fun failure hfailure => by rw [List.mem_singleton.mp hfailure]⟩

/-- A scan and another one, whose insertion of the favicon fails, and both tasks count. -/
def meteredEvents : List (MeteredEvent Caller) :=
  [.core noFaults .first, .enrichment noFaults .first, .core noFaults .second, .record 0,
    .enrichment (fun statement => if statement = .insert .favicons 0 then some "full" else none)
      .second, .record 0]

/-- The second scan of a page replaces a failure of the first. -/
theorem partial_failures_counted_iff_rescan :
    ∃ final, runTrace (Metered.step idleReaders (fun _ => "[]") (withFailure oldAndNew))
        { calls := { db := .empty } } meteredEvents = some final ∧
      (Counted.all.stored (countRunPartialFailures final.calls.db "run"),
        Counted.all.live final) = (2, 3) ∧
      Counted.all.live final = Counted.all.recorded final.metrics ∧
      ¬ Along (Metered.step idleReaders (fun _ => "[]") (withFailure oldAndNew))
        (fun state event => ¬ Replaces "run" .all state event) { calls := { db := .empty } }
        meteredEvents := by
  refine ⟨_, rfl, by decide +kernel, ?_⟩
  obtain ⟨-, hiff, hrecorded⟩ := partial_failures_counted_iff idleReaders (fun _ => "[]")
    (withFailure oldAndNew) "run" (ofRun_withFailure fun caller => by cases caller <;> rfl) .empty
    rfl meteredEvents _ rfl .all
  refine ⟨hrecorded rfl, fun halong => ?_⟩
  have hcounts := hiff.mpr halong
  revert hcounts
  decide +kernel

/-! ## Calls with different keys -/

instance (faults : Faults) : Decidable (RolledBack faults) := by
  unfold RolledBack
  infer_instance

/-- The call whose enrichment transaction commits. -/
def MeteredEvent.committed? : MeteredEvent ι → Option ι
  | .enrichment faults caller => if RolledBack faults then none else some caller
  | _ => none

variable {keys : ι → Value × Value} {done : List ι} {faults : Faults} {caller : ι}

/-- The row of a record is there after the upsert. -/
theorem upsertUrlStatusRow_mem {urlRecord : UrlRecord} {table status : StatusTable} {id : ℕ}
    {inserted : Bool} {key : Value × Value}
    (h : upsertUrlStatusRow faults urlRecord table = .ok ((id, inserted), status))
    (hkey : statusKey (statusRow urlRecord) = some key) :
    ∃ row ∈ status.rows, row.id = id ∧ statusKey row.value = some key := by
  have hinserted := table.insert_withKey hkey
  rcases upsertUrlStatusRow_cases h with hinsert | ⟨hinsert, hupdate⟩
  · rw [hinsert] at hinserted
    have hmem : (⟨id, 0, statusRow urlRecord⟩ : Row (List Value)) ∈ status.withKey key := by
      rw [hinserted.2]
      exact List.mem_singleton_self _
    exact ⟨_, (StatusTable.mem_withKey.mp hmem).1, rfl, hkey⟩
  · rw [hinsert] at hinserted
    obtain ⟨old, hold⟩ := (withKey_cases { Database.empty with urlStatus := table }
      key).resolve_left hinserted.1
    obtain ⟨hid, hrow⟩ := StatusTable.update_withKey hkey hold
    rw [hupdate] at hid hrow
    have hmem : { old with value := statusRow urlRecord } ∈ status.withKey key := by
      rw [hrow]
      exact List.mem_singleton_self _
    exact ⟨_, (StatusTable.mem_withKey.mp hmem).1, (Option.some.inj hid).symm, hkey⟩

/-- A record keeps the number of the row with its key. -/
theorem idFor_eq {table : StatusTable} {urlRecord : UrlRecord} {row : Row (List Value)}
    {key : Value × Value} (hkey : statusKey (statusRow urlRecord) = some key)
    (hrow : row ∈ table.rows) (hrowKey : statusKey row.value = some key) :
    table.idFor urlRecord = row.id := by
  have hmem : row ∈ table.withKey key := StatusTable.mem_withKey.mpr ⟨hrow, hrowKey⟩
  obtain ⟨only, honly⟩ := List.length_eq_one_iff.mp
    (Nat.le_antisymm (table.length_withKey_le key) (List.length_pos_of_mem hmem))
  rw [honly, List.mem_singleton] at hmem
  subst hmem
  rw [StatusTable.idFor, ← List.head?_filter]
  simp only [sameStatusKey_eq hkey]
  rw [← StatusTable.withKey, honly]
  rfl

/-- The number of each call is that of a row with its key, and the counted rows belong to calls
that have committed. -/
structure Owned (runId : String) (keys : ι → Value × Value) (done : List ι) (state : Metered ι) :
    Prop where
  row : ∀ caller upsert, state.calls.upserts caller = some upsert →
    ∃ row ∈ state.calls.db.urlStatus.rows, row.id = upsert.id ∧
      statusKey row.value = some (keys caller)
  owner : ∀ row ∈ (state.calls.db.satellites .partialFailures).rows,
    hasRunId runId row.value = true →
      ∃ caller ∈ done, ∃ upsert, state.calls.upserts caller = some upsert ∧ upsert.id = row.parent

omit [DecidableEq ι] in
/-- Calls with different keys have different numbers. -/
theorem Owned.caller_eq (hinj : Function.Injective keys) (h : Owned runId keys done state)
    {other : ι} {upsert found : UrlUpsertOutcome}
    (hupsert : state.calls.upserts caller = some upsert)
    (hfound : state.calls.upserts other = some found) (hid : upsert.id = found.id) :
    caller = other := by
  obtain ⟨row, hrow, hrowId, hrowKey⟩ := h.row caller upsert hupsert
  obtain ⟨second, hsecond, hsecondId, hsecondKey⟩ := h.row other found hfound
  have hsame : row = second := List.inj_on_of_nodup_map state.calls.db.urlStatus.nodup hrow hsecond
    (by rw [hrowId, hsecondId, hid])
  rw [hsame, hsecondKey, Option.some.injEq] at hrowKey
  exact hinj hrowKey.symm

/-- A core transaction keeps the pages owned. -/
theorem Owned.core (hkeys : ∀ caller, statusKey (statusRow (records caller).urlRecord) =
      some (keys caller)) (hinj : Function.Injective keys) (h : Owned runId keys done state)
    (hstep : state.step readers write records (.core faults caller) = some next) :
    Owned runId keys done next := by
  cases hstep
  simp only [Calls.attempt]
  rcases hok : insertUrlRecordImpl readers faults state.calls.db (records caller) with
    _ | ⟨outcome, after⟩
  · exact h
  · obtain ⟨status, inserted, hupsert, -⟩ := insertUrlRecordImpl_ok hok
    have hid := (upsertUrlStatusRow_id hupsert).1
    have hstatus : after.urlStatus = status := by
      have hsame : KeptByStatements outcome.id fun middle : Database =>
          middle.urlStatus = status := ⟨fun _ _ h => h, fun _ _ _ h => h, fun _ _ _ _ h => h⟩
      refine hsame.insertUrlRecordImpl hok fun other _ hother => ?_
      rw [hupsert, Except.ok.injEq, Prod.mk.injEq] at hother
      exact hother.2.symm
    constructor
    · intro other upsert hother
      simp only [Function.update_apply] at hother
      split at hother
      case isTrue hcaller =>
        cases hother
        subst hcaller
        dsimp only
        rw [hstatus]
        exact upsertUrlStatusRow_mem hupsert (hkeys other)
      case isFalse hcaller =>
        obtain ⟨row, hrow, hrowId, hrowKey⟩ := h.row other upsert hother
        have hapart : Apart (records caller).urlRecord row := by
          right
          rw [hkeys, hrowKey, ne_eq, Option.some.injEq]
          exact fun hsame => hcaller (hinj hsame).symm
        have hne : row.id ≠ outcome.id := by
          rw [hid]
          exact hapart.idFor_ne hrow
        have hmem : row ∈ after.urlStatus.rows.filter (·.id ≠ outcome.id) := by
          rw [otherPages_insertUrlRecordImpl hok]
          exact List.mem_filter.mpr ⟨hrow, by simpa using hne⟩
        exact ⟨row, List.mem_of_mem_filter hmem, hrowId, hrowKey⟩
    · intro row hrow hcounted
      dsimp only at hrow
      rw [partialFailures_insertUrlRecordImpl hok] at hrow
      obtain ⟨other, hdone, upsert, hother, hparent⟩ := h.owner row hrow hcounted
      refine ⟨other, hdone, ?_⟩
      simp only [Function.update_apply]
      split
      case isTrue hcaller =>
        subst hcaller
        obtain ⟨old, hold, holdId, holdKey⟩ := h.row other upsert hother
        refine ⟨outcome, rfl, ?_⟩
        rw [hid, idFor_eq (hkeys other) hold holdKey, holdId, hparent]
      case isFalse => exact ⟨upsert, hother, hparent⟩

/-- An enrichment transaction keeps the pages owned. -/
theorem Owned.enrichment (h : Owned runId keys done state)
    (hstep : state.step readers write records (.enrichment faults caller) = some next) :
    Owned runId keys
      (done ++ (MeteredEvent.enrichment faults caller).committed?.toList) next := by
  cases hupsert : state.calls.upserts caller with
  | none => simp [Metered.step, Calls.attempt, hupsert] at hstep
  | some upsert =>
      simp only [Metered.step, Calls.attempt, hupsert, Option.bind_eq_bind,
        Function.update_self, Option.bind_some, Option.some.injEq] at hstep
      subst hstep
      constructor
      · intro other found hfound
        dsimp only at hfound ⊢
        rw [insertEnrichmentData_urlStatus]
        simp only [Function.update_apply] at hfound
        split at hfound
        case isTrue hcaller =>
          cases hfound
          exact h.row other upsert (hcaller ▸ hupsert)
        case isFalse => exact h.row other found hfound
      · intro row hrow hcounted
        dsimp only at hrow
        have hkept : row ∈ (state.calls.db.satellites .partialFailures).rows →
            ∃ other ∈ done ++ (MeteredEvent.enrichment faults caller).committed?.toList,
              ∃ found, Function.update state.calls.upserts caller (some { upsert with
                partialFailuresInserted := (insertEnrichmentData write faults state.calls.db
                  upsert.id (records caller)
                  upsert.satelliteInsertFailures).1.partialFailuresInserted
                satelliteInsertErrorsInserted := (insertEnrichmentData write faults state.calls.db
                  upsert.id (records caller)
                  upsert.satelliteInsertFailures).1.satelliteInsertErrorsInserted }) other =
                  some found ∧ found.id = row.parent := by
          intro hold
          obtain ⟨other, hdone, found, hfound, hparent⟩ := h.owner row hold hcounted
          refine ⟨other, List.mem_append_left _ hdone, ?_⟩
          by_cases hcaller : other = caller
          · subst hcaller
            rw [hupsert, Option.some.injEq] at hfound
            exact ⟨_, Function.update_self .., hfound ▸ hparent⟩
          · exact ⟨found, by rwa [Function.update_of_ne hcaller], hparent⟩
        by_cases hback : RolledBack faults
        · rw [insertEnrichmentData_rolledBack hback] at hrow
          exact hkept hrow
        · by_cases hparent : row.parent = upsert.id
          · refine ⟨caller, ?_, _, Function.update_self .., hparent.symm⟩
            simp [MeteredEvent.committed?, hback]
          · refine hkept ?_
            have hothers := (isolated_insertEnrichmentData faults write state.calls.db upsert.id
              (records caller) upsert.satelliteInsertFailures).rows .partialFailures
            have hmem : row ∈ ((insertEnrichmentData write faults state.calls.db upsert.id
                (records caller) upsert.satelliteInsertFailures).2.satellites
                  .partialFailures).rowsExcept upsert.id :=
              List.mem_filter.mpr ⟨hrow, by simpa using hparent⟩
            rw [hothers] at hmem
            exact List.mem_of_mem_filter hmem

/-- One step keeps the pages owned. -/
theorem Owned.step (hkeys : ∀ caller, statusKey (statusRow (records caller).urlRecord) =
      some (keys caller)) (hinj : Function.Injective keys) (h : Owned runId keys done state)
    {event : MeteredEvent ι} (hstep : state.step readers write records event = some next) :
    Owned runId keys (done ++ event.committed?.toList) next := by
  cases event with
  | core faults caller => simpa [MeteredEvent.committed?] using h.core hkeys hinj hstep
  | enrichment faults caller => exact h.enrichment hstep
  | record index =>
      cases hreturned : state.returned[index]? with
      | none => simp [Metered.step, hreturned] at hstep
      | some outcome =>
          simp only [Metered.step, hreturned, Option.bind_eq_bind, Option.bind_some,
            Option.some.injEq] at hstep
          subst hstep
          show Owned runId keys (done ++ []) _
          rw [List.append_nil]
          exact ⟨h.row, h.owner⟩

omit [DecidableEq ι] in
/-- A call that has not committed yet replaces nothing. -/
theorem Owned.not_replaces (hinj : Function.Injective keys) (h : Owned runId keys done state)
    {event : MeteredEvent ι} (hnew : (done ++ event.committed?.toList).Nodup) :
    ¬ Replaces runId counted state event := by
  cases event with
  | core faults caller | record index => exact id
  | enrichment faults caller =>
      rintro ⟨hcommits, upsert, hupsert, failure, hfailure, hcounted⟩
      obtain ⟨row, hrow, rfl⟩ := List.mem_map.mp hfailure
      obtain ⟨hmem, hparent⟩ := List.mem_filter.mp hrow
      have hrun := Counted.hasRunId_of_ofRow hcounted
      obtain ⟨other, hdone, found, hfound, hid⟩ := h.owner row hmem hrun
      have hsame : caller = other := h.caller_eq hinj hupsert hfound
        (by rw [hid, of_decide_eq_true hparent])
      subst hsame
      simp only [MeteredEvent.committed?, if_neg hcommits, Option.toList_some,
        List.nodup_append] at hnew
      exact hnew.2.2 caller hdone caller (List.mem_singleton_self _) rfl

variable (readers write counted) in
/-- With keys of their own no step replaces rows. -/
theorem along_not_replaces (hkeys : ∀ caller, statusKey (statusRow (records caller).urlRecord) =
      some (keys caller)) (hinj : Function.Injective keys) (h : Owned runId keys done state)
    {events : List (MeteredEvent ι)}
    (honce : (done ++ events.filterMap MeteredEvent.committed?).Nodup) :
    Along (Metered.step readers write records)
      (fun state event => ¬ Replaces runId counted state event) state events := by
  induction events generalizing state done with
  | nil => trivial
  | cons event rest ih =>
      have hsplit : done ++ (event :: rest).filterMap MeteredEvent.committed? =
          (done ++ event.committed?.toList) ++ rest.filterMap MeteredEvent.committed? := by
        rw [List.filterMap_cons]
        cases event.committed? <;> simp
      rw [hsplit] at honce
      exact ⟨h.not_replaces hinj (List.nodup_append.mp honce).1,
        fun next hnext => ih (h.step hkeys hinj hnext) honce⟩

/-- With different keys, and no call that commits twice, the tasks count the rows. Once every task
has recorded its outcome, the metrics have the number of the rows. -/
theorem partial_failures_counted (readers : Readers) (write : WriteStrings)
    (records : ι → PersistedUrlRecord) (runId : String)
    (hrecords : ∀ caller, OfRun runId (records caller)) (keys : ι → Value × Value)
    (hkeys : ∀ caller, statusKey (statusRow (records caller).urlRecord) = some (keys caller))
    (hinj : Function.Injective keys) (before : Database)
    (hbefore : (countRunPartialFailures before runId).total = 0) (events : List (MeteredEvent ι))
    (honce : (events.filterMap MeteredEvent.committed?).Nodup) (final : Metered ι)
    (hrun : runTrace (Metered.step readers write records) { calls := { db := before } } events =
      some final) (counted : Counted) :
    counted.stored (countRunPartialFailures final.calls.db runId) = counted.live final ∧
      (final.returned = [] →
        counted.stored (countRunPartialFailures final.calls.db runId) =
          counted.recorded final.metrics) := by
  have hstart : Owned runId keys [] ({ calls := { db := before } } : Metered ι) := by
    refine ⟨nofun, fun row hrow hcounted => ?_⟩
    exact absurd hcounted (List.countP_eq_zero.mp hbefore row hrow)
  have halong := along_not_replaces readers write counted
    hkeys hinj hstart honce
  obtain ⟨more, hdrift, hmore⟩ := drift_final counted hrecords hbefore hrun
  have hcount : counted.stored (countRunPartialFailures final.calls.db runId) =
      counted.live final := by
    unfold Drift at hdrift
    rw [hdrift, hmore.mpr halong, Nat.add_zero]
  exact ⟨hcount, fun hreturned => hcount.trans (Counted.live_of_returned_eq_nil hreturned)⟩

/-- The two pages have different keys. -/
theorem twoKeys_injective : Function.Injective twoKeys := by
  intro caller other h
  cases caller <;> cases other <;> first | rfl | exact absurd h (by decide)

/-- The failures of two pages are counted. -/
theorem partial_failures_counted_two_pages :
    ∃ final, runTrace (Metered.step idleReaders (fun _ => "[]") (withFailure twoPages))
        { calls := { db := .empty } } meteredEvents = some final ∧
      Counted.satelliteInsertErrors.recorded final.metrics = 1 ∧
      Counted.satelliteInsertErrors.stored (countRunPartialFailures final.calls.db "run") =
        Counted.satelliteInsertErrors.recorded final.metrics := by
  have hcounts := fun final hrun => (partial_failures_counted idleReaders (fun _ => "[]")
    (withFailure twoPages) "run" (ofRun_withFailure fun caller => by cases caller <;> rfl) twoKeys
    twoPages_key twoKeys_injective .empty rfl meteredEvents (by decide) final hrun
    .satelliteInsertErrors).2
  exact ⟨_, rfl, by decide +kernel, hcounts _ rfl rfl⟩

end Runs

end DomainStatus.Storage
