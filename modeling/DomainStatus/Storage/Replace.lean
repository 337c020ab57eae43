import DomainStatus.Storage.AllOrNothing
import DomainStatus.Storage.CoreSatellites

/-!
# Transactions without failures

When no statement fails, each of the two transactions of a record replaces the rows of its tables by
those of the record and leaves the tables of the other one alone. Read
`insertUrlRecordImpl_replaces` and `insertEnrichmentTxn_replaces` first.
-/

namespace DomainStatus.Storage

/-- No statement fails. -/
def noFaults : Faults := fun _ => none

variable {urlStatusId : ℕ}

/-- Without faults all statements are completed. -/
theorem completed_noFaults (table : Satellite) (index count : ℕ) :
    completed (noFaults.hits table) index count = count := by
  induction count generalizing index with
  | zero => rfl
  | succ count ih => rw [completed, if_neg (by simp [Faults.hits, noFaults]), ih]

/-- Without faults all claims are completed. -/
theorem completed_noFaults_claims (index count : ℕ) :
    completed noFaults.hitsClaims index count = count := by
  induction count generalizing index with
  | zero => rfl
  | succ count ih => rw [completed, if_neg (by simp [Faults.hitsClaims, noFaults]), ih]

/-! ## The core transaction -/

/-- The rows of a record for a core table, merged by its unique key. -/
def coreRows (readers : Readers) (record : PersistedUrlRecord) (table : Satellite) :
    List (List Value) :=
  mergedRows (coreInserts readers record table) []

/-- The changes of some writers. -/
def Database.write (db : Database) (urlStatusId : ℕ) (inserts : Satellite → List Insert)
    (tables : List Satellite) : Database :=
  tables.foldl (fun db table =>
    (inserts table).foldl (fun db insert => db.insert table urlStatusId insert) db) db

section Write

variable {inserts : Satellite → List Insert} {tables : List Satellite} {table : Satellite}
  {db : Database}

/-- The writers do not touch the main table. -/
theorem write_urlStatus : (db.write urlStatusId inserts tables).urlStatus = db.urlStatus := by
  induction tables generalizing db with
  | nil => rfl
  | cons first rest ih =>
      rw [Database.write, List.foldl_cons, ← Database.write, ih, foldl_insert_urlStatus]

/-- The writers do not touch the claims. -/
theorem write_jwtClaims : (db.write urlStatusId inserts tables).jwtClaims = db.jwtClaims := by
  induction tables generalizing db with
  | nil => rfl
  | cons first rest ih =>
      rw [Database.write, List.foldl_cons, ← Database.write, ih, foldl_insert_jwtClaims]

/-- The writers touch their own tables only. -/
theorem write_satellites_ne (h : table ∉ tables) :
    (db.write urlStatusId inserts tables).satellites table = db.satellites table := by
  induction tables generalizing db with
  | nil => rfl
  | cons first rest ih =>
      rw [List.mem_cons, not_or] at h
      rw [Database.write, List.foldl_cons, ← Database.write, ih h.2, foldl_insert_satellites_ne h.1]

/-- The values of a page after the writers. -/
theorem write_valuesOf (hnodup : tables.Nodup) (h : table ∈ tables) :
    ((db.write urlStatusId inserts tables).satellites table).valuesOf urlStatusId =
      mergedRows (inserts table) ((db.satellites table).valuesOf urlStatusId) := by
  induction tables generalizing db with
  | nil => cases h
  | cons first rest ih =>
      obtain ⟨hfirst, hrest⟩ := List.nodup_cons.mp hnodup
      rw [Database.write, List.foldl_cons, ← Database.write]
      rcases List.mem_cons.mp h with rfl | h
      · rw [write_satellites_ne hfirst, foldl_insert_valuesOf]
      · rw [ih hrest h, foldl_insert_satellites_ne (ne_of_mem_of_not_mem h hfirst)]

/-- Two lists of tables are written one after the other. -/
theorem write_append (more : List Satellite) :
    db.write urlStatusId inserts (tables ++ more) =
      (db.write urlStatusId inserts tables).write urlStatusId inserts more :=
  List.foldl_append

/-- Without faults all inserts are carried out. -/
theorem runInserts_noFaults (index : ℕ) (list : List Insert) :
    runInserts noFaults table urlStatusId index list db =
      (.ok (), list.foldl (fun db insert => db.insert table urlStatusId insert) db) := by
  induction list generalizing index db with
  | nil => rfl
  | cons insert rest ih => exact ih (index + 1)

/-- Without faults a writer writes all. -/
theorem runWriter_noFaults :
    runWriter noFaults urlStatusId inserts tables db =
      (.ok (), db.write urlStatusId inserts tables) := by
  induction tables generalizing db with
  | nil => rfl
  | cons first rest ih =>
      rw [runWriter, runInserts_noFaults]
      exact ih

/-- Without faults all writers write. -/
theorem writeCoreSatellites_noFaults (writers : List (Satellite × List Satellite)) :
    writeCoreSatellites noFaults urlStatusId inserts writers [] db =
      ([], db.write urlStatusId inserts (writers.flatMap Prod.snd)) := by
  induction writers generalizing db with
  | nil => rfl
  | cons writer rest ih =>
      rw [writeCoreSatellites, runWriter_noFaults, List.flatMap_cons, write_append]
      exact ih

/-- The writers cover the core tables. -/
theorem coreWriters_tables : coreWriters.flatMap Prod.snd = Satellite.core := rfl

end Write

/-- A row of `url_status` is inserted when the key is free, and updated otherwise. -/
theorem upsertUrlStatusRow_noFaults {record : UrlRecord} {key : Value × Value}
    (hkey : statusKey (statusRow record) = some key) (table : StatusTable) :
    ∃ id inserted after row, upsertUrlStatusRow noFaults record table =
        .ok ((id, inserted), after) ∧
      after.withKey key = [row] ∧ row.id = id ∧ row.value = statusRow record ∧
      (inserted = true ↔ table.withKey key = []) ∧
      ∀ old, table.withKey key = [old] → old.id = id := by
  have hinsert := table.insert_withKey hkey
  rcases hrun : table.insert (statusRow record) with ⟨_ | id, after⟩
  · rw [hrun] at hinsert
    obtain ⟨htaken, rfl⟩ := hinsert
    obtain ⟨old, hold⟩ : ∃ old, after.withKey key = [old] := by
      rw [← List.length_eq_one_iff]
      have hle := after.length_withKey_le key
      have hpos := List.length_pos_iff.mpr htaken
      omega
    obtain ⟨hid, hrow⟩ := StatusTable.update_withKey hkey hold
    refine ⟨old.id, false, (after.update record).2, _, ?_, hrow, rfl, rfl, by simp [htaken], ?_⟩
    · have hupdate : after.update record = (some old.id, (after.update record).2) := by rw [← hid]
      simp only [upsertUrlStatusRow, noFaults, hrun]
      rw [hupdate]
    · intro other hother
      rw [hold, List.singleton_inj] at hother
      rw [hother]
  · rw [hrun] at hinsert
    obtain ⟨hfree, hrow⟩ := hinsert
    refine ⟨id, true, after, _, ?_, hrow, rfl, rfl, by simp [hfree], fun old hold => ?_⟩
    · simp only [upsertUrlStatusRow, noFaults, hrun]
    · rw [hfree] at hold
      cases hold

/-- The fact row and the core rows of a page are those of a record. -/
structure CoreFrom (readers : Readers) (record : PersistedUrlRecord) (key : Value × Value)
    (urlStatusId : ℕ) (db : Database) : Prop where
  status : ∃ row, db.urlStatus.withKey key = [row] ∧ row.id = urlStatusId ∧
    row.value = statusRow record.urlRecord
  rows : ∀ table ∈ Satellite.core,
    (db.satellites table).valuesOf urlStatusId = coreRows readers record table

/-- Without faults all tables are cleaned. -/
theorem deleteChildRows_noFaults {tables : List Satellite} {db : Database} :
    deleteChildRows noFaults urlStatusId tables db =
      (.ok (), tables.foldl (fun db table => db.deleteOf table urlStatusId) db) := by
  induction tables generalizing db with
  | nil => rfl
  | cons first rest ih => exact ih

/-- The clean-up does not touch the main table. -/
theorem foldl_deleteOf_urlStatus {tables : List Satellite} {db : Database} :
    (tables.foldl (fun db table => db.deleteOf table urlStatusId) db).urlStatus = db.urlStatus := by
  induction tables generalizing db with
  | nil => rfl
  | cons first rest ih => exact ih

/-- Without the secrets among the tables no claims are deleted. -/
theorem foldl_deleteOf_jwtClaims {tables : List Satellite} {db : Database}
    (h : Satellite.exposedSecrets ∉ tables) :
    (tables.foldl (fun db table => db.deleteOf table urlStatusId) db).jwtClaims = db.jwtClaims := by
  induction tables generalizing db with
  | nil => rfl
  | cons first rest ih =>
      rw [List.mem_cons, not_or] at h
      rw [List.foldl_cons, ih h.2]
      exact Database.modify_jwtClaims_ne h.1

/-- The core transaction replaces the fact row and the core rows. -/
theorem insertUrlRecordImpl_replaces (readers : Readers) {record : PersistedUrlRecord}
    {key : Value × Value} (hkey : statusKey (statusRow record.urlRecord) = some key)
    (db : Database) :
    ∃ outcome after, insertUrlRecordImpl readers noFaults db record = .ok (outcome, after) ∧
      CoreFrom readers record key outcome.id after ∧ outcome.satelliteInsertFailures = [] ∧
      (outcome.inserted = true ↔ db.urlStatus.withKey key = []) ∧
      (∀ old, db.urlStatus.withKey key = [old] → old.id = outcome.id) ∧
      (∀ table ∉ Satellite.core, after.satellites table = db.satellites table) ∧
      after.jwtClaims = db.jwtClaims := by
  obtain ⟨id, inserted, status, row, hupsert, hrow, hid, hvalue, hinserted, hold⟩ :=
    upsertUrlStatusRow_noFaults hkey db.urlStatus
  obtain ⟨cleaned, hcleaned⟩ : ∃ cleaned : Database, cleaned = Satellite.core.foldl
    (fun db table => db.deleteOf table id) { db with urlStatus := status } := ⟨_, rfl⟩
  have hdeleted : deleteChildRows noFaults id Satellite.core { db with urlStatus := status } =
      (.ok (), cleaned) := by
    rw [hcleaned, deleteChildRows_noFaults]
  have hrun : insertUrlRecordImpl readers noFaults db record =
      .ok ({ id := id, inserted := inserted, satelliteInsertFailures := [] },
        cleaned.write id (coreInserts readers record) Satellite.core) := by
    simp only [insertUrlRecordImpl, hupsert, hdeleted, writeCoreSatellites_noFaults,
      coreWriters_tables]
    rfl
  refine ⟨_, _, hrun, ⟨⟨row, ?_, hid, hvalue⟩, fun table htable => ?_⟩, rfl, hinserted, hold,
    fun table htable => ?_, ?_⟩
  · rw [write_urlStatus, hcleaned, foldl_deleteOf_urlStatus]
    exact hrow
  · rw [write_valuesOf (by decide) htable, (deleteChildRows_ok hdeleted table).1 htable, coreRows]
  · rw [write_satellites_ne htable, (deleteChildRows_ok hdeleted table).2.2 htable]
  · rw [write_jwtClaims, hcleaned, foldl_deleteOf_jwtClaims (by decide)]

/-! ## The enrichment transaction -/

/-- A property of databases that the statements of the enrichment transaction keep. -/
structure KeptByStatements (urlStatusId : ℕ) (P : Database → Prop) : Prop where
  delete : ∀ db table, P db → P (db.deleteOf table urlStatusId)
  insert : ∀ db table insert, P db → P (db.insert table urlStatusId insert)
  claims : ∀ db secretId jwt h, P db → P (db.insertClaims secretId jwt h)

namespace KeptByStatements

variable {P : Database → Prop} {faults : Faults} (hkept : KeptByStatements urlStatusId P)

include hkept

/-- What the statements keep, the clean-up keeps. -/
theorem deleteChildRows {tables : List Satellite} {db : Database} (h : P db) :
    P (deleteChildRows faults urlStatusId tables db).2 := by
  induction tables generalizing db with
  | nil => exact h
  | cons first rest ih =>
      rw [Storage.deleteChildRows]
      split
      · exact h
      · exact ih (hkept.delete db first h)

/-- What the statements keep, inserts keep. -/
theorem foldl_insert {table : Satellite} {inserts : List Insert} {db : Database} (h : P db) :
    P (inserts.foldl (fun db insert => db.insert table urlStatusId insert) db) := by
  induction inserts generalizing db with
  | nil => exact h
  | cons insert rest ih => exact ih (hkept.insert db table insert h)

/-- What the statements keep, the writers keep. -/
theorem writeTables {inserts : Satellite → Option (List Insert)} {tables : List Satellite}
    {state : EnrichmentState} (h : P state.db) :
    P (writeTables faults urlStatusId inserts tables state).db := by
  induction tables generalizing state with
  | nil => exact h
  | cons first rest ih =>
      refine ih ?_
      rw [tryEnrich_db]
      exact hkept.foldl_insert h

/-- What the statements keep, storing claims keeps. -/
theorem insertJwtClaimsBatch {items : List (ℕ × Secrets.DecodedJwt)} {db : Database} (index : ℕ)
    (h : P db) : P (insertJwtClaimsBatch faults index items db).2 := by
  induction items generalizing index db with
  | nil => exact h
  | cons item rest ih =>
      rw [Storage.insertJwtClaimsBatch]
      split
      · exact h
      · split
        · exact ih (index + 1) (hkept.claims _ _ _ _ h)
        · exact h

/-- What the statements keep, storing secrets keeps. -/
theorem insertExposedSecretsInTx {secrets : List Secrets.ExposedSecret} {state : EnrichmentState}
    (h : P state.db) : P (insertExposedSecretsInTx faults urlStatusId secrets state).db := by
  have hsecrets : P (insertExposedSecrets faults urlStatusId 0 secrets state.db).2 := by
    rw [insertExposedSecrets_db]
    exact hkept.foldl_insert h
  unfold Storage.insertExposedSecretsInTx
  split
  · exact h
  · match hrun : insertExposedSecrets faults urlStatusId 0 secrets state.db with
    | (.ok ids, db) =>
        dsimp only
        rw [hrun] at hsecrets
        have hclaims : P (Storage.insertJwtClaimsBatch faults 0 (jwtItems secrets ids) db).2 :=
          hkept.insertJwtClaimsBatch 0 hsecrets
        match hbatch : Storage.insertJwtClaimsBatch faults 0 (jwtItems secrets ids) db with
        | (.ok (), _) => rwa [hbatch] at hclaims
        | (.error _, _) => rwa [hbatch] at hclaims
    | (.error _, _) => rwa [hrun] at hsecrets

/-- What the statements keep, storing partial failures keeps. -/
theorem insertPartialFailures {failures : List UrlPartialFailureRecord}
    {summary : EnrichmentInsertSummary} {db : Database} (index : ℕ) (h : P db) :
    P (insertPartialFailures faults urlStatusId index failures summary db).2 := by
  induction failures generalizing index summary db with
  | nil => exact h
  | cons failure rest ih =>
      rw [Storage.insertPartialFailures]
      split
      · exact ih (index + 1) h
      · exact ih (index + 1) (hkept.insert _ _ _ h)

/-- What all statements keep, the transaction keeps. -/
theorem insertEnrichmentTxn {write : WriteStrings} {record : PersistedUrlRecord}
    {coreFailures : List SatelliteWriteFailure} {db after : Database}
    {summary : EnrichmentInsertSummary} (h : P db)
    (hok : insertEnrichmentTxn write faults db urlStatusId record coreFailures =
      .ok (summary, after)) : P after := by
  obtain ⟨start, hrun, hfinished⟩ := insertEnrichmentTxn_eq_ok hok
  have hdelete : P (Storage.deleteChildRows faults urlStatusId Satellite.enrichment db).2 :=
    hkept.deleteChildRows h
  rw [hrun] at hdelete
  rw [show after = (summary, after).2 from rfl, hfinished]
  exact hkept.insertPartialFailures 0
    (hkept.writeTables (hkept.insertExposedSecretsInTx (hkept.writeTables hdelete)))

end KeptByStatements

/-- The row of a partial failure. -/
def partialFailureRow (failure : UrlPartialFailureRecord) : List Value :=
  [.text failure.errorType.asStr, .text failure.errorMessage, .integer failure.timestamp,
    .ofOption .text failure.runId]

/-- The rows of a record for an enrichment table. -/
def enrichmentRows (write : WriteStrings) (record : PersistedUrlRecord) :
    Satellite → List (List Value)
  | .partialFailures => record.partialFailures.map partialFailureRow
  | table => recordRows write record table

/-- The enrichments of a page are those of a record. -/
structure EnrichmentFrom (write : WriteStrings) (record : PersistedUrlRecord) (urlStatusId : ℕ)
    (db : Database) : Prop where
  rows : ∀ table ∈ Satellite.enrichment,
    (db.satellites table).valuesOf urlStatusId = enrichmentRows write record table
  claims : db.claimsOf urlStatusId = recordClaims record

/-- Without faults all partial failures are stored. -/
theorem insertPartialFailures_noFaults (index : ℕ) (failures : List UrlPartialFailureRecord)
    (summary : EnrichmentInsertSummary) (db : Database) :
    ((insertPartialFailures noFaults urlStatusId index failures summary db).2.satellites
        .partialFailures).valuesOf urlStatusId =
      (db.satellites .partialFailures).valuesOf urlStatusId ++ failures.map partialFailureRow := by
  induction failures generalizing index summary db with
  | nil => simp [insertPartialFailures]
  | cons failure rest ih =>
      have hinsert : ((db.insert .partialFailures urlStatusId
          (insertUrlPartialFailure { failure with urlStatusId })).satellites
            .partialFailures).valuesOf urlStatusId =
          (db.satellites .partialFailures).valuesOf urlStatusId ++ [partialFailureRow failure] := by
        rw [Database.insert_valuesOf]
        simp [insertUrlPartialFailure, Insert.onConflict, OnConflict.merge, OnConflict.clash,
          partialFailureRow]
      rw [insertPartialFailures]
      simp only [noFaults] at ih ⊢
      rw [ih, hinsert, List.map_cons, List.append_assoc, List.singleton_append]

/-- Without faults no table fails. -/
theorem outcome_noFaults (table : Satellite) (inserts : Option (List Insert)) :
    (outcome noFaults table inserts).isFailed = false := by
  cases inserts with
  | none => rfl
  | some inserts => rw [outcome, completed_noFaults, if_pos rfl]; rfl

/-- No writer fails. -/
theorem writeEnrichments_noFaults (write : WriteStrings) {record : PersistedUrlRecord}
    {db : Database}
    (hempty : ∀ table ∈ summaryTables, (db.satellites table).valuesOf urlStatusId = []) :
    (writeEnrichments write noFaults urlStatusId record { db := db }).insertFailures = [] := by
  obtain ⟨-, -, -, -, -, hlength⟩ :=
    writeEnrichments_spec write noFaults record hempty
  have hclaims : claimsFail noFaults record.exposedSecrets = false := by
    simp [claimsFail, completed_noFaults_claims]
  rw [hclaims] at hlength
  simp only [enrichmentOutcome, outcome_noFaults] at hlength
  exact List.length_eq_zero_iff.mp hlength

/-- The partial failures are those of the scan, as no writer fails. -/
theorem insertEnrichmentTxn_partialFailures {write : WriteStrings} {record : PersistedUrlRecord}
    {db after : Database} {summary : EnrichmentInsertSummary}
    (hok : insertEnrichmentTxn write noFaults db urlStatusId record [] = .ok (summary, after)) :
    (after.satellites .partialFailures).valuesOf urlStatusId =
      record.partialFailures.map partialFailureRow := by
  obtain ⟨cleaned, hcleaned⟩ : ∃ cleaned,
      deleteChildRows noFaults urlStatusId Satellite.enrichment db = (.ok (), cleaned) :=
    ⟨_, deleteChildRows_noFaults⟩
  have hempty : ∀ table ∈ summaryTables, (cleaned.satellites table).valuesOf urlStatusId = [] :=
    fun table htable =>
      (deleteChildRows_ok hcleaned table).1 (by revert htable; cases table <;> decide)
  have hother := (writeEnrichments_spec write noFaults record hempty).2.1
  have hrun : insertEnrichmentTxn write noFaults db urlStatusId record [] =
      .ok (insertPartialFailures noFaults urlStatusId 0 record.partialFailures
        (writeEnrichments write noFaults urlStatusId record { db := cleaned }).summary
        (writeEnrichments write noFaults urlStatusId record { db := cleaned }).db) := by
    simp only [insertEnrichmentTxn, hcleaned, writeEnrichments_noFaults write hempty,
      allPartialFailures, List.append_nil, List.map_nil]
    rfl
  rw [hrun, Except.ok.injEq] at hok
  rw [show after = (summary, after).2 from rfl, ← hok, insertPartialFailures_noFaults,
    hother _ (by decide), (deleteChildRows_ok hcleaned .partialFailures).1 (by decide),
    List.nil_append]

/-- The enrichment transaction replaces the enrichments. -/
theorem insertEnrichmentTxn_replaces (urlStatusId : ℕ) (write : WriteStrings)
    (record : PersistedUrlRecord) (db : Database) :
    ∃ summary after, insertEnrichmentTxn write noFaults db urlStatusId record [] =
        .ok (summary, after) ∧
      EnrichmentFrom write record urlStatusId after ∧ after.urlStatus = db.urlStatus ∧
      ∀ table ∈ Satellite.core, after.satellites table = db.satellites table := by
  obtain ⟨⟨summary, after⟩, hok⟩ := (exists_ok_iff urlStatusId write db record []).mpr
    (by simp [RolledBack, noFaults] : ¬ RolledBack noFaults)
  obtain ⟨hrows, hcore, hclaims, -⟩ := insertEnrichmentTxn_ok write hok
  have hstatus : KeptByStatements urlStatusId fun other => other.urlStatus = db.urlStatus :=
    ⟨fun _ _ h => h, fun _ _ _ h => h, fun _ _ _ _ h => h⟩
  refine ⟨summary, after, hok, ⟨fun table htable => ?_, ?_⟩, hstatus.insertEnrichmentTxn rfl hok,
    hcore⟩
  · by_cases hpartial : table = .partialFailures
    · subst hpartial
      exact insertEnrichmentTxn_partialFailures hok
    · have hsummary : table ∈ summaryTables := by
        revert htable hpartial
        cases table <;> decide
      have hmerged : performedRows write noFaults record table = recordRows write record table := by
        rw [performedRows, performed, completed_noFaults, List.take_length, recordRows]
      rw [hrows table hsummary, hmerged]
      cases table <;> first | rfl | exact absurd rfl hpartial
  · have hdone : secretsDone noFaults record.exposedSecrets := completed_noFaults _ _ _
    rw [hclaims, performedClaims, if_pos hdone, completed_noFaults_claims, List.take_length,
      recordClaims]

end DomainStatus.Storage
