import DomainStatus.Storage.CoreFaults

/-!
# Other pages

The two transactions of a record write to one row of `url_status` and to the rows that belong to it.
Whatever fails, the rows of all other pages and the claims of their secrets stay as they are, and
every row keeps belonging to a row of `url_status`. Read `isolated_insertUrlRecordImpl` and
`isolated_insertEnrichmentTxn` first.
-/

namespace DomainStatus.Storage

variable {faults : Faults} {urlStatusId other : ℕ} {table : Satellite} {db after : Database}

/-! ## Statements for a page -/

/-- The rows of other pages, and the claims of their secrets, are those of before. -/
structure Isolated (urlStatusId : ℕ) (before after : Database) : Prop where
  rows : ∀ table, (after.satellites table).rowsExcept urlStatusId =
    (before.satellites table).rowsExcept urlStatusId
  claims : ∀ other, other ≠ urlStatusId → after.claimsOf other = before.claimsOf other

/-- Doing nothing is isolated. -/
theorem Isolated.refl (urlStatusId : ℕ) (db : Database) : Isolated urlStatusId db db :=
  ⟨fun _ => rfl, fun _ _ => rfl⟩

/-- Two isolated steps are isolated together. -/
theorem Isolated.trans {first second third : Database} (h : Isolated urlStatusId first second)
    (h' : Isolated urlStatusId second third) : Isolated urlStatusId first third :=
  ⟨fun table => (h'.rows table).trans (h.rows table),
    fun other hother => (h'.claims other hother).trans (h.claims other hother)⟩

/-- The rows of another page stay. -/
theorem Isolated.rowsOf (h : Isolated urlStatusId db after) (hother : other ≠ urlStatusId)
    (table : Satellite) :
    (after.satellites table).rowsOf other = (db.satellites table).rowsOf other :=
  Table.rowsOf_congr hother (h.rows table)

/-- The values of another page stay. -/
theorem Isolated.valuesOf (h : Isolated urlStatusId db after) (hother : other ≠ urlStatusId)
    (table : Satellite) :
    (after.satellites table).valuesOf other = (db.satellites table).valuesOf other := by
  rw [Table.valuesOf_eq_map, h.rowsOf hother, Table.valuesOf_eq_map]

/-- The keys of secrets are kept with their rows. -/
theorem secretKeys_congr (h : (after.satellites .exposedSecrets).rowsOf other =
    (db.satellites .exposedSecrets).rowsOf other) :
    after.secretKeys other = db.secretKeys other := by
  funext id
  rw [Database.secretKeys, Database.secretKeys, Table.keyOf_eq_find, Table.keyOf_eq_find, h]

/-- A change that keeps the rows of other pages keeps them in every table. -/
theorem rowsExcept_modify {change : Table (List Value) → Table (List Value)}
    (h : (change (db.satellites table)).rowsExcept urlStatusId =
      (db.satellites table).rowsExcept urlStatusId) (other : Satellite) :
    ((db.modify table change).satellites other).rowsExcept urlStatusId =
      (db.satellites other).rowsExcept urlStatusId := by
  by_cases hother : other = table
  · subst hother
    rw [Database.modify_satellites, h]
  · rw [Database.modify_satellites_ne hother]

/-- Claims of the secrets of another page outlive a change of the rows of this one. -/
theorem claimsOf_modify {change : Table (List Value) → Table (List Value)}
    (h : (change (db.satellites table)).rowsExcept urlStatusId =
      (db.satellites table).rowsExcept urlStatusId) (hother : other ≠ urlStatusId) :
    (db.modify table change).claimsOf other = db.claimsOf other := by
  have hrows := Table.rowsOf_congr hother (rowsExcept_modify h .exposedSecrets)
  rw [Database.claimsOf, Database.claimsOf, secretKeys_congr hrows]
  refine Table.joined_filter fun claim _ hgone => ?_
  rw [← secretKeys_congr hrows, Option.eq_none_iff_forall_ne_some]
  intro key hkey
  -- a secret with a key is still there
  obtain ⟨row, hrow, hid, -⟩ := Table.keyOf_eq_some.mp hkey
  have hhas : ((db.modify table change).satellites .exposedSecrets).hasId claim.parent = true :=
    List.any_eq_true.mpr ⟨row, hrow, decide_eq_true hid⟩
  rw [Bool.eq_false_iff] at hgone
  exact hgone hhas

/-- A change that keeps the rows of other pages is isolated. -/
theorem isolated_modify {change : Table (List Value) → Table (List Value)}
    (h : (change (db.satellites table)).rowsExcept urlStatusId =
      (db.satellites table).rowsExcept urlStatusId) :
    Isolated urlStatusId db (db.modify table change) :=
  ⟨rowsExcept_modify h, fun _ hother => claimsOf_modify h hother⟩

/-- Deleting the rows of a page is isolated. -/
theorem isolated_deleteOf (db : Database) (table : Satellite) :
    Isolated urlStatusId db (db.deleteOf table urlStatusId) :=
  isolated_modify Table.rowsExcept_deleteOf

/-- Inserting rows of a page is isolated. -/
theorem isolated_insert (db : Database) (table : Satellite) (insert : Insert) :
    Isolated urlStatusId db (db.insert table urlStatusId insert) := by
  refine isolated_modify ?_
  induction insert.rows generalizing db with
  | nil => rfl
  | cons row rest ih =>
      have hrow : ((db.satellites table).insert insert.onConflict urlStatusId row).2.rowsExcept
          urlStatusId = (db.satellites table).rowsExcept urlStatusId := Table.rowsExcept_insert
      have hrest := ih (db.modify table fun start =>
        (start.insert insert.onConflict urlStatusId row).2)
      rw [Database.modify_satellites] at hrest
      exact hrest.trans hrow

/-- Inserting the claims of a page's secret is isolated. -/
theorem isolated_insertClaims {secretId : ℕ} {jwt : Secrets.DecodedJwt} {key : List Value}
    (h : (db.satellites .exposedSecrets).hasId secretId = true)
    (hkey : db.secretKeys urlStatusId secretId = some key) :
    Isolated urlStatusId db (db.insertClaims secretId jwt h) := by
  refine ⟨fun _ => rfl, fun other hother => ?_⟩
  exact Table.joined_insert_of_none (Table.keyOf_eq_none_of_keyOf hother hkey) _

/-! ## Transactions for a page -/

section Transactions

variable (faults)

/-- The clean-up is isolated. -/
theorem isolated_deleteChildRows (tables : List Satellite) (db : Database) :
    Isolated urlStatusId db (deleteChildRows faults urlStatusId tables db).2 := by
  induction tables generalizing db with
  | nil => exact Isolated.refl _ _
  | cons first rest ih =>
      rw [deleteChildRows]
      split
      · exact Isolated.refl _ _
      · exact (isolated_deleteOf db first).trans (ih _)

/-- Inserts for a page are isolated. -/
theorem isolated_foldl_insert (table : Satellite) (inserts : List Insert) (db : Database) :
    Isolated urlStatusId db
      (inserts.foldl (fun db insert => db.insert table urlStatusId insert) db) := by
  induction inserts generalizing db with
  | nil => exact Isolated.refl _ _
  | cons insert rest ih => exact (isolated_insert db table insert).trans (ih _)

/-- A writer is isolated. -/
theorem isolated_runWriter {inserts : Satellite → List Insert} (tables : List Satellite)
    (db : Database) :
    Isolated urlStatusId db (runWriter faults urlStatusId inserts tables db).2 := by
  induction tables generalizing db with
  | nil => exact Isolated.refl _ _
  | cons first rest ih =>
      have hfirst : Isolated urlStatusId db
          (runInserts faults first urlStatusId 0 (inserts first) db).2 := by
        rw [(runInserts_eq faults first urlStatusId 0 (inserts first) db).1]
        exact isolated_foldl_insert first _ db
      rw [runWriter]
      rcases hrun : runInserts faults first urlStatusId 0 (inserts first) db with ⟨_ | ⟨⟩, _⟩
      · rwa [hrun] at hfirst
      · rw [hrun] at hfirst
        exact hfirst.trans (ih _)

/-- The core writers are isolated. -/
theorem isolated_writeCoreSatellites {inserts : Satellite → List Insert}
    (writers : List (Satellite × List Satellite)) (failures : List SatelliteWriteFailure)
    (db : Database) :
    Isolated urlStatusId db
      (writeCoreSatellites faults urlStatusId inserts writers failures db).2 := by
  induction writers generalizing failures db with
  | nil => exact Isolated.refl _ _
  | cons writer rest ih =>
      obtain ⟨noted, -, hstep, -⟩ :=
        writeCoreSatellites_cons faults urlStatusId db inserts writer rest failures
      rw [hstep]
      exact (isolated_runWriter faults writer.2 db).trans (ih _ _)

variable {faults} in
/-- The core transaction leaves other pages alone. -/
theorem isolated_insertUrlRecordImpl {readers : Readers} {record : PersistedUrlRecord}
    {outcome : UrlUpsertOutcome}
    (hok : insertUrlRecordImpl readers faults db record = .ok (outcome, after)) :
    Isolated outcome.id db after := by
  obtain ⟨status, -, -, hrun⟩ := insertUrlRecordImpl_ok hok
  have hstart : Isolated outcome.id db { db with urlStatus := status } :=
    ⟨fun _ => rfl, fun _ _ => rfl⟩
  have hcleaned := hstart.trans (isolated_deleteChildRows faults Satellite.core _)
  rcases hrun with ⟨-, rfl, -⟩ | ⟨-, result, hwrite, -, rfl⟩
  · exact hcleaned
  · rw [← hwrite]
    exact hcleaned.trans (isolated_writeCoreSatellites faults coreWriters [] _)

/-- The enrichment writers are isolated. -/
theorem isolated_writeTables {inserts : Satellite → Option (List Insert)}
    (tables : List Satellite) (state : EnrichmentState) :
    Isolated urlStatusId state.db (writeTables faults urlStatusId inserts tables state).db := by
  induction tables generalizing state with
  | nil => exact Isolated.refl _ _
  | cons first rest ih =>
      rw [writeTables, List.foldl_cons, ← writeTables]
      refine Isolated.trans ?_ (ih _)
      rw [tryEnrich_db]
      exact isolated_foldl_insert first _ state.db

/-- Claims are written for secrets of the page. -/
theorem isolated_insertJwtClaimsBatch {items : List (ℕ × Secrets.DecodedJwt)} (index : ℕ)
    (db : Database) (h : ∀ item ∈ items, (db.secretKeys urlStatusId item.1).isSome = true) :
    Isolated urlStatusId db (insertJwtClaimsBatch faults index items db).2 := by
  induction items generalizing index db with
  | nil => exact Isolated.refl _ _
  | cons item rest ih =>
      obtain ⟨hitem, hrest⟩ := List.forall_mem_cons.mp h
      obtain ⟨key, hkey⟩ := Option.isSome_iff_exists.mp hitem
      rw [insertJwtClaimsBatch]
      split
      · exact Isolated.refl _ _
      · split
        case isTrue hhas => exact (isolated_insertClaims hhas hkey).trans (ih _ _ hrest)
        case isFalse => exact Isolated.refl _ _

/-- Storing the secrets of a page is isolated. -/
theorem isolated_insertExposedSecretsInTx (secrets : List Secrets.ExposedSecret)
    (state : EnrichmentState) :
    Isolated urlStatusId state.db
      (insertExposedSecretsInTx faults urlStatusId secrets state).db := by
  have hsecrets : Isolated urlStatusId state.db
      (insertExposedSecrets faults urlStatusId 0 secrets state.db).2 := by
    rw [insertExposedSecrets_db]
    exact isolated_foldl_insert _ _ _
  have hspec := insertExposedSecrets_spec faults urlStatusId 0 secrets state.db
  unfold insertExposedSecretsInTx
  split
  · exact Isolated.refl _ _
  · split
    next ids db hrun =>
      rw [hrun] at hsecrets hspec
      have hids : List.Forall₂ (fun item pair => (db.secretKeys urlStatusId item.1).isSome = true ∧
          jwtValues item.2 = pair.2) (jwtItems secrets ids) (claimPairs secrets) :=
        (forall₂_jwtItems hspec.2).imp fun item pair hitem => ⟨by rw [hitem.1]; rfl, hitem.2⟩
      have hkeys := ((List.forall₂_and_left _ _).mp hids).1
      have hclaims := isolated_insertJwtClaimsBatch faults 0 db hkeys
      match hbatch : insertJwtClaimsBatch faults 0 (jwtItems secrets ids) db with
      | (.ok (), _) =>
          rw [hbatch] at hclaims
          exact hsecrets.trans hclaims
      | (.error _, _) =>
          rw [hbatch] at hclaims
          exact hsecrets.trans hclaims
    next hrun => rwa [hrun] at hsecrets

/-- Storing the partial failures of a page is isolated. -/
theorem isolated_insertPartialFailures (failures : List UrlPartialFailureRecord)
    (summary : EnrichmentInsertSummary) (index : ℕ) (db : Database) :
    Isolated urlStatusId db
      (insertPartialFailures faults urlStatusId index failures summary db).2 := by
  induction failures generalizing index summary db with
  | nil => exact Isolated.refl _ _
  | cons failure rest ih =>
      rw [insertPartialFailures]
      split
      · exact ih _ _ _
      · exact (isolated_insert db _ _).trans (ih _ _ _)

variable {faults} in
/-- The enrichment transaction leaves other pages alone. -/
theorem isolated_insertEnrichmentTxn {write : WriteStrings} {record : PersistedUrlRecord}
    {coreFailures : List SatelliteWriteFailure} {summary : EnrichmentInsertSummary}
    (hok : insertEnrichmentTxn write faults db urlStatusId record coreFailures =
      .ok (summary, after)) : Isolated urlStatusId db after := by
  have hcleaned : Isolated urlStatusId db
      (deleteChildRows faults urlStatusId Satellite.enrichment db).2 :=
    isolated_deleteChildRows faults _ db
  obtain ⟨start, hdelete, hfinished⟩ := insertEnrichmentTxn_eq_ok hok
  rw [hdelete] at hcleaned
  rw [show after = (summary, after).2 from rfl, hfinished]
  exact hcleaned.trans <| (isolated_writeTables faults _ { db := start }).trans <|
    (isolated_insertExposedSecretsInTx faults _ _).trans <|
      (isolated_writeTables faults _ _).trans (isolated_insertPartialFailures faults _ _ _ _)

/-- The enrichment transaction is isolated. -/
theorem isolated_insertEnrichmentData (write : WriteStrings) (db : Database)
    (urlStatusId : ℕ) (record : PersistedUrlRecord) (coreFailures : List SatelliteWriteFailure) :
    Isolated urlStatusId db
      (insertEnrichmentData write faults db urlStatusId record coreFailures).2 := by
  unfold insertEnrichmentData
  cases hok : insertEnrichmentTxn write faults db urlStatusId record coreFailures with
  | ok _ => exact isolated_insertEnrichmentTxn hok
  | error _ => exact Isolated.refl _ _

end Transactions

/-! ## Rows that belong to a page -/

/-- The foreign keys to `url_status`. -/
def Linked (db : Database) : Prop :=
  ∀ table, ∀ row ∈ (db.satellites table).rows, db.urlStatus.hasId row.parent = true

/-- An empty database is linked. -/
theorem linked_empty : Linked Database.empty :=
  fun _ _ => nofun

/-- Statements for a row that is there keep the foreign keys. -/
theorem linked_kept : KeptByStatements urlStatusId fun db : Database =>
    Linked db ∧ db.urlStatus.hasId urlStatusId = true := by
  have htables (status : StatusTable) (hstatus : status.hasId urlStatusId = true) :
      KeptByStatements urlStatusId fun db => ∀ table, ∀ row ∈ (db.satellites table).rows,
        status.hasId row.parent = true :=
    keptByStatements_of_tables
      (Q := fun _ start => ∀ row ∈ start.rows, status.hasId row.parent = true)
      (fun _ start h row hrow => h row (List.mem_of_mem_filter hrow))
      (fun _ start conflict value h row hrow => by
        rcases Table.parent_of_mem_insert hrow with hparent | ⟨old, hold, hparent⟩
        · rw [hparent]
          exact hstatus
        · rw [← hparent]
          exact h old hold)
  exact ⟨fun db table h => ⟨(htables db.urlStatus h.2).delete db table h.1, h.2⟩,
    fun db table insert h => ⟨(htables db.urlStatus h.2).insert db table insert h.1, h.2⟩,
    fun _ _ _ _ h => h⟩

/-- An update keeps the numbers there are. -/
theorem StatusTable.hasId_update {table after : StatusTable} {record : UrlRecord} {found : ℕ}
    (id : ℕ) (h : table.update record = (some found, after)) :
    after.hasId id = table.hasId id ∧ table.hasId found = true := by
  rw [StatusTable.update, Prod.mk.injEq, Option.map_eq_some_iff] at h
  obtain ⟨⟨row, hrow, rfl⟩, rfl⟩ := h
  refine ⟨by simp [Table.hasId, Table.mapValues, Function.comp_def], ?_⟩
  exact List.any_eq_true.mpr ⟨row, List.mem_of_find?_eq_some hrow, by simp⟩

/-- An insert adds the number it gives. -/
theorem StatusTable.hasId_insert {table after : StatusTable} {value : List Value} {id found : ℕ}
    (h : table.insert value = (some found, after)) :
    after.hasId id = (table.hasId id || decide (found = id)) := by
  unfold StatusTable.insert at h
  split at h
  · cases h
  · rw [Prod.mk.injEq, Option.some.injEq] at h
    obtain ⟨rfl, rfl⟩ := h
    simp [Table.hasId, Table.push]

/-- The upsert deletes no row, and its row is there. -/
theorem upsertUrlStatusRow_hasId {record : UrlRecord} {table after : StatusTable} {id : ℕ}
    {inserted : Bool} (h : upsertUrlStatusRow faults record table = .ok ((id, inserted), after)) :
    after.hasId id = true ∧ ∀ old, table.hasId old = true → after.hasId old = true := by
  rcases upsertUrlStatusRow_cases h with hinsert | ⟨-, hupdate⟩
  · exact ⟨by simp [StatusTable.hasId_insert hinsert],
      fun old hold => by simp [StatusTable.hasId_insert hinsert, hold]⟩
  · have hids := fun old => StatusTable.hasId_update old hupdate
    exact ⟨(hids id).1.trans (hids id).2, fun old hold => (hids old).1.trans hold⟩

/-- The core transaction keeps the database linked. -/
theorem linked_insertUrlRecordImpl {readers : Readers} {record : PersistedUrlRecord}
    {outcome : UrlUpsertOutcome} (hlinked : Linked db)
    (hok : insertUrlRecordImpl readers faults db record = .ok (outcome, after)) :
    Linked after ∧ after.urlStatus.hasId outcome.id = true := by
  refine linked_kept.insertUrlRecordImpl hok fun status inserted hupsert => ?_
  obtain ⟨hid, hold⟩ := upsertUrlStatusRow_hasId hupsert
  exact ⟨fun table row hrow => hold _ (hlinked table row hrow), hid⟩

/-- The enrichment transaction keeps the database linked. -/
theorem linked_insertEnrichmentData {write : WriteStrings} {record : PersistedUrlRecord}
    {coreFailures : List SatelliteWriteFailure} (hlinked : Linked db)
    (hid : db.urlStatus.hasId urlStatusId = true) :
    Linked (insertEnrichmentData write faults db urlStatusId record coreFailures).2 := by
  unfold insertEnrichmentData
  cases hok : insertEnrichmentTxn write faults db urlStatusId record coreFailures with
  | ok _ => exact (linked_kept.insertEnrichmentTxn ⟨hlinked, hid⟩ hok).1
  | error _ => exact hlinked

end DomainStatus.Storage
