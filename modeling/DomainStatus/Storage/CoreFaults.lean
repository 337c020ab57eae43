import DomainStatus.Storage.Rescan

/-!
# The core transaction when statements fail

A `DELETE` of the cleanup or a statement of a writer may fail, and the core transaction is committed
all the same. Read `insert_url_record_unmixed_iff` first: the rows of a page are then the old ones,
or those of the new record with the gaps reported, unless the cleanup has already deleted rows when
it fails.
-/

namespace DomainStatus.Storage

variable {faults : Faults} {urlStatusId : ℕ} {tables : List Satellite} {table : Satellite}
  {db after : Database}

/-! ## The number of the row -/

/-- The number of the row that a record is stored in: that of the row with its key, or the next. -/
def StatusTable.idFor (table : StatusTable) (record : UrlRecord) : ℕ :=
  ((table.rows.find? fun row => sameStatusKey row.value (statusRow record)).map Row.id).getD
    table.nextId

/-- An insert that succeeds gives the record's number. -/
theorem StatusTable.insert_id {table after : StatusTable} {record : UrlRecord} {id : ℕ}
    (h : table.insert (statusRow record) = (some id, after)) :
    id = table.idFor record ∧
      after.rows.filter (·.id ≠ id) = table.rows.filter (·.id ≠ id) := by
  unfold StatusTable.insert at h
  split at h
  case isTrue => cases h
  case isFalse hfree =>
    rw [Prod.mk.injEq, Option.some.injEq] at h
    obtain ⟨rfl, rfl⟩ := h
    have hnone :
        (table.rows.find? fun row => sameStatusKey row.value (statusRow record)) = none := by
      rw [List.find?_eq_none]
      intro row hrow hsame
      exact hfree (List.any_eq_true.mpr ⟨row, hrow, hsame⟩)
    refine ⟨by rw [idFor, hnone]; rfl, ?_⟩
    show (table.rows ++ [_]).filter _ = _
    simp [List.filter_append]

/-- An insert that conflicts changes nothing. -/
theorem StatusTable.insert_none {table after : StatusTable} {value : List Value}
    (h : table.insert value = (none, after)) : after = table := by
  unfold StatusTable.insert at h
  split at h
  · exact (Prod.mk.inj h).2.symm
  · cases (Prod.mk.inj h).1

/-- An update gives the number of the row it found. -/
theorem StatusTable.update_id {table after : StatusTable} {record : UrlRecord} {id : ℕ}
    (h : table.update record = (some id, after)) :
    id = table.idFor record ∧
      after.rows.filter (·.id ≠ id) = table.rows.filter (·.id ≠ id) := by
  rw [StatusTable.update, Prod.mk.injEq, Option.map_eq_some_iff] at h
  obtain ⟨⟨found, hfound, rfl⟩, rfl⟩ := h
  have hkey := List.find?_some hfound
  refine ⟨by rw [idFor, hfound]; rfl, ?_⟩
  show (table.rows.map _).filter _ = _
  rw [List.filter_map]
  refine (List.map_congr_left fun row hrow => ?_).trans (List.map_id _)
  obtain ⟨hrow, hne⟩ := List.mem_filter.mp hrow
  have hother : sameStatusKey row.value (statusRow record) = false := by
    -- keys are unique, so only the row that was found has the key
    by_contra hsame
    rw [Bool.not_eq_false] at hsame
    obtain ⟨key, hsome⟩ := Option.isSome_iff_exists.mp (sameStatusKey_iff.mp hsame).1
    have hlength := table.length_withKey_le key
    have hmem : row ∈ table.withKey key :=
      List.mem_filter.mpr ⟨hrow, decide_eq_true hsome⟩
    have hmemFound : found ∈ table.withKey key := by
      refine List.mem_filter.mpr ⟨List.mem_of_find?_eq_some hfound, decide_eq_true ?_⟩
      rw [(sameStatusKey_iff.mp hkey).2, ← (sameStatusKey_iff.mp hsame).2, hsome]
    obtain ⟨only, honly⟩ := List.length_eq_one_iff.mp
      (Nat.le_antisymm hlength (List.length_pos_of_mem hmem))
    rw [honly, List.mem_singleton] at hmem hmemFound
    rw [hmem, hmemFound] at hne
    simp at hne
  simp [hother]

/-- The upsert inserts the row, or updates the one that is in the way. -/
theorem upsertUrlStatusRow_cases {record : UrlRecord} {table after : StatusTable} {id : ℕ}
    {inserted : Bool} (h : upsertUrlStatusRow faults record table = .ok ((id, inserted), after)) :
    table.insert (statusRow record) = (some id, after) ∨
      table.insert (statusRow record) = (none, table) ∧
        table.update record = (some id, after) := by
  unfold upsertUrlStatusRow at h
  split at h
  · cases h
  · match hinsert : table.insert (statusRow record) with
    | (some found, stored) =>
        rw [hinsert] at h
        cases h
        exact .inl rfl
    | (none, unchanged) =>
        rw [hinsert] at h
        obtain rfl := StatusTable.insert_none hinsert
        dsimp only at h
        split at h
        · cases h
        · match hupdate : unchanged.update record with
          | (some found, stored) =>
              rw [hupdate] at h
              cases h
              exact .inr ⟨rfl, rfl⟩
          | (none, stored) =>
              rw [hupdate] at h
              cases h

/-- The upsert stores the record under its number and leaves the other rows alone. -/
theorem upsertUrlStatusRow_id {record : UrlRecord} {table after : StatusTable} {id : ℕ}
    {inserted : Bool} (h : upsertUrlStatusRow faults record table = .ok ((id, inserted), after)) :
    id = table.idFor record ∧
      after.rows.filter (·.id ≠ id) = table.rows.filter (·.id ≠ id) := by
  rcases upsertUrlStatusRow_cases h with hinsert | ⟨-, hupdate⟩
  · exact StatusTable.insert_id hinsert
  · exact StatusTable.update_id hupdate

/-! ## Cleanup -/

/-- The tables that the cleanup deletes from before a `DELETE` fails. -/
def cleanedTables (faults : Faults) (tables : List Satellite) : List Satellite :=
  tables.takeWhile fun table => (faults (.delete table)).isNone

/-- The cleanup of the core tables fails. -/
def CleanupFails (faults : Faults) : Prop :=
  ∃ table ∈ Satellite.core, faults (.delete table) ≠ none

/-- The cleanup deletes up to the first `DELETE` that fails. -/
theorem deleteChildRows_eq (faults : Faults) (urlStatusId : ℕ) (tables : List Satellite)
    (db : Database) :
    (deleteChildRows faults urlStatusId tables db).2 =
        (cleanedTables faults tables).foldl (fun db table => db.deleteOf table urlStatusId) db ∧
      ((deleteChildRows faults urlStatusId tables db).1.isOk = true ↔
        ∀ table ∈ tables, faults (.delete table) = none) := by
  induction tables generalizing db with
  | nil => exact ⟨rfl, fun _ => nofun, fun _ => rfl⟩
  | cons first rest ih =>
      rw [deleteChildRows, cleanedTables, List.takeWhile_cons, List.forall_mem_cons]
      cases hfault : faults (.delete first) with
      | some message => simp [Except.isOk, Except.toBool]
      | none => simpa [cleanedTables] using ih (db.deleteOf first urlStatusId)

/-- Other tables are not emptied. -/
theorem foldl_deleteOf_satellites_ne (h : table ∉ tables) :
    (tables.foldl (fun db table => db.deleteOf table urlStatusId) db).satellites table =
      db.satellites table := by
  induction tables generalizing db with
  | nil => rfl
  | cons first rest ih =>
      rw [List.mem_cons, not_or] at h
      rw [List.foldl_cons, ih h.2, Database.deleteOf, Database.modify_satellites_ne h.1]

/-- The tables named are emptied of the page. -/
theorem foldl_deleteOf_rowsOf (h : table ∈ tables) :
    ((tables.foldl (fun db table => db.deleteOf table urlStatusId) db).satellites
      table).rowsOf urlStatusId = [] := by
  induction tables generalizing db with
  | nil => cases h
  | cons first rest ih =>
      rw [List.foldl_cons]
      by_cases hrest : table ∈ rest
      · exact ih hrest
      · obtain rfl : table = first := (List.mem_cons.mp h).resolve_right hrest
        rw [foldl_deleteOf_satellites_ne hrest, Database.deleteOf, Database.modify_satellites,
          Table.rowsOf_deleteOf]

/-! ## Writers -/

/-- The writer of a table has reported a failure. -/
def Reported (writers : List (Satellite × List Satellite)) (failures : List SatelliteWriteFailure)
    (table : Satellite) : Prop :=
  ∃ writer ∈ writers, table ∈ writer.2 ∧ ∃ failure ∈ failures, failure.table = writer.1.name

section Writers

variable {inserts : Satellite → List Insert}

/-- Inserts that succeed are all carried out. -/
theorem runInserts_ok {index : ℕ} {list : List Insert}
    (h : runInserts faults table urlStatusId index list db = (.ok (), after)) :
    after = list.foldl (fun db insert => db.insert table urlStatusId insert) db := by
  obtain ⟨hdb, hok⟩ := runInserts_eq faults table urlStatusId index list db
  rw [h] at hdb hok
  rw [hok.mp rfl, List.take_length] at hdb
  exact hdb

variable (faults urlStatusId inserts db)

/-- Inserts touch their own table only. -/
theorem runInserts_satellites_ne {other : Satellite} (index : ℕ) (list : List Insert)
    (h : other ≠ table) :
    (runInserts faults table urlStatusId index list db).2.satellites other =
      db.satellites other := by
  rw [(runInserts_eq faults table urlStatusId index list db).1, foldl_insert_satellites_ne h]

variable {faults urlStatusId inserts db} in
/-- A writer that succeeds has written all. -/
theorem runWriter_ok (h : runWriter faults urlStatusId inserts tables db = (.ok (), after)) :
    after = db.write urlStatusId inserts tables := by
  induction tables generalizing db with
  | nil =>
      cases h
      rfl
  | cons first rest ih =>
      rw [runWriter] at h
      rcases hrun : runInserts faults first urlStatusId 0 (inserts first) db with ⟨_ | ⟨⟩, _⟩
      · rw [hrun] at h
        cases h
      · rw [hrun] at h
        rw [ih h, runInserts_ok hrun]
        rfl

/-- A writer touches its own tables only. -/
theorem runWriter_satellites_ne (h : table ∉ tables) :
    (runWriter faults urlStatusId inserts tables db).2.satellites table = db.satellites table := by
  induction tables generalizing db with
  | nil => rfl
  | cons first rest ih =>
      rw [List.mem_cons, not_or] at h
      have hfirst := runInserts_satellites_ne faults urlStatusId db 0 (inserts first) h.1
      rw [runWriter]
      rcases hrun : runInserts faults first urlStatusId 0 (inserts first) db with ⟨_ | ⟨⟩, _⟩
      · rwa [hrun] at hfirst
      · rw [hrun] at hfirst
        rw [ih _ h.2, hfirst]

/-- The writers behind one go on from what it leaves, whether it fails or not. -/
theorem writeCoreSatellites_cons (writer : Satellite × List Satellite)
    (rest : List (Satellite × List Satellite)) (failures : List SatelliteWriteFailure) :
    ∃ noted, failures ⊆ noted ∧
      writeCoreSatellites faults urlStatusId inserts (writer :: rest) failures db =
        writeCoreSatellites faults urlStatusId inserts rest noted
          (runWriter faults urlStatusId inserts writer.2 db).2 ∧
      ((runWriter faults urlStatusId inserts writer.2 db).1 = .ok () ∨
        ∃ failure ∈ noted, failure.table = writer.1.name) := by
  rw [writeCoreSatellites]
  cases hrun : runWriter faults urlStatusId inserts writer.2 db with
  | mk result after =>
      cases result with
      | ok done => exact ⟨failures, List.Subset.refl _, rfl, .inl rfl⟩
      | error message =>
          exact ⟨_, List.subset_append_left _ _, rfl,
            .inr ⟨_, List.mem_append_right _ List.mem_cons_self, rfl⟩⟩

/-- Failures that are noted stay noted. -/
theorem writeCoreSatellites_failures (writers : List (Satellite × List Satellite))
    {failures : List SatelliteWriteFailure} {failure : SatelliteWriteFailure}
    (h : failure ∈ failures) :
    failure ∈ (writeCoreSatellites faults urlStatusId inserts writers failures db).1 := by
  induction writers generalizing failures db with
  | nil => exact h
  | cons writer rest ih =>
      obtain ⟨noted, hnoted, hstep, -⟩ :=
        writeCoreSatellites_cons faults urlStatusId db inserts writer rest failures
      rw [hstep]
      exact ih _ (hnoted h)

/-- The writers touch their own tables only. -/
theorem writeCoreSatellites_satellites_ne {writers : List (Satellite × List Satellite)}
    (failures : List SatelliteWriteFailure) (h : table ∉ writers.flatMap Prod.snd) :
    (writeCoreSatellites faults urlStatusId inserts writers failures db).2.satellites table =
      db.satellites table := by
  induction writers generalizing failures db with
  | nil => rfl
  | cons writer rest ih =>
      rw [List.flatMap_cons, List.mem_append, not_or] at h
      obtain ⟨noted, -, hstep, -⟩ :=
        writeCoreSatellites_cons faults urlStatusId db inserts writer rest failures
      rw [hstep, ih _ _ h.2, runWriter_satellites_ne faults urlStatusId db inserts h.1]

/-- A table gets the rows of its writer, or the writer's failure is noted. -/
theorem writeCoreSatellites_spec {writers : List (Satellite × List Satellite)}
    (failures : List SatelliteWriteFailure) (hnodup : (writers.flatMap Prod.snd).Nodup)
    (h : table ∈ writers.flatMap Prod.snd) :
    ((writeCoreSatellites faults urlStatusId inserts writers failures db).2.satellites
          table).valuesOf urlStatusId =
        mergedRows (inserts table) ((db.satellites table).valuesOf urlStatusId) ∨
      Reported writers
        (writeCoreSatellites faults urlStatusId inserts writers failures db).1 table := by
  induction writers generalizing failures db with
  | nil => cases h
  | cons writer rest ih =>
      rw [List.flatMap_cons] at hnodup h
      obtain ⟨hwriter, hrest, hdisjoint⟩ := List.nodup_append'.mp hnodup
      obtain ⟨noted, -, hstep, hfirst⟩ :=
        writeCoreSatellites_cons faults urlStatusId db inserts writer rest failures
      rw [hstep]
      by_cases hmem : table ∈ writer.2
      · have hother : table ∉ rest.flatMap Prod.snd := fun hmore => hdisjoint hmem hmore
        rcases hfirst with hdone | ⟨failure, hfailure, hname⟩
        · left
          have hrun : runWriter faults urlStatusId inserts writer.2 db =
              (.ok (), (runWriter faults urlStatusId inserts writer.2 db).2) :=
            Prod.ext hdone rfl
          rw [writeCoreSatellites_satellites_ne _ _ _ _ _ hother, runWriter_ok hrun,
            write_valuesOf hwriter hmem]
        · right
          exact ⟨writer, List.mem_cons_self, hmem, failure,
            writeCoreSatellites_failures _ _ _ _ _ hfailure, hname⟩
      · have hmore := (List.mem_append.mp h).resolve_left hmem
        have hkept := runWriter_satellites_ne faults urlStatusId db inserts hmem
        rw [← hkept]
        exact (ih _ _ hrest hmore).imp_right fun ⟨other, hother, hreported⟩ =>
          ⟨other, List.mem_cons_of_mem _ hother, hreported⟩

end Writers

/-! ## What all statements keep -/

namespace KeptByStatements

variable {P : Database → Prop} (hkept : KeptByStatements urlStatusId P)
  {inserts : Satellite → List Insert}

include hkept

/-- What the statements keep, a writer keeps. -/
theorem runWriter (h : P db) : P (runWriter faults urlStatusId inserts tables db).2 := by
  induction tables generalizing db with
  | nil => exact h
  | cons first rest ih =>
      have hfirst : P (runInserts faults first urlStatusId 0 (inserts first) db).2 := by
        rw [(runInserts_eq faults first urlStatusId 0 (inserts first) db).1]
        exact hkept.foldl_insert h
      rw [Storage.runWriter]
      rcases hrun : runInserts faults first urlStatusId 0 (inserts first) db with ⟨_ | ⟨⟩, _⟩
      · rwa [hrun] at hfirst
      · rw [hrun] at hfirst
        exact ih hfirst

/-- What the statements keep, the writers keep. -/
theorem writeCoreSatellites {writers : List (Satellite × List Satellite)}
    {failures : List SatelliteWriteFailure} (h : P db) :
    P (writeCoreSatellites faults urlStatusId inserts writers failures db).2 := by
  induction writers generalizing failures db with
  | nil => exact h
  | cons writer rest ih =>
      obtain ⟨noted, -, hstep, -⟩ :=
        writeCoreSatellites_cons faults urlStatusId db inserts writer rest failures
      rw [hstep]
      exact ih (hkept.runWriter h)

end KeptByStatements

/-- Rows of other parents are the old ones, and numbers of old rows are not given again. -/
structure Framed (urlStatusId : ℕ) (before after : Database) : Prop where
  others : ∀ table, (after.satellites table).rowsExcept urlStatusId =
    (before.satellites table).rowsExcept urlStatusId
  nextId : ∀ table, (before.satellites table).nextId ≤ (after.satellites table).nextId

/-- The rows of a parent in the core tables are newer than all rows of a database before. -/
def Fresh (urlStatusId : ℕ) (before after : Database) : Prop :=
  ∀ table ∈ Satellite.core, (before.satellites table).nextId ≤ (after.satellites table).nextId ∧
    ∀ row ∈ (after.satellites table).rowsOf urlStatusId, (before.satellites table).nextId ≤ row.id

/-- What a `DELETE` and a stored row keep in a table, the statements keep in all tables. -/
theorem keptByStatements_of_tables {Q : Satellite → Table (List Value) → Prop}
    (hdelete : ∀ table start, Q table start → Q table (start.deleteOf urlStatusId))
    (hinsert : ∀ table start (conflict : OnConflict (List Value) (List Value)) row,
      Q table start → Q table (start.insert conflict urlStatusId row).2) :
    KeptByStatements urlStatusId fun db => ∀ table, Q table (db.satellites table) where
  delete db table h := by
    intro other
    by_cases hother : other = table
    · subst hother
      rw [Database.deleteOf, Database.modify_satellites]
      exact hdelete other _ (h other)
    · rw [Database.deleteOf, Database.modify_satellites_ne hother]
      exact h other
  insert db table insert h := by
    intro other
    by_cases hother : other = table
    · subst hother
      rw [Database.insert, Database.modify_satellites]
      have hstart := h other
      generalize db.satellites other = start at hstart ⊢
      induction insert.rows generalizing start with
      | nil => exact hstart
      | cons row rest ih => exact ih _ (hinsert other start _ row hstart)
    · rw [Database.insert_satellites_ne hother]
      exact h other
  claims _ _ _ _ h := h

/-- The statements of a page leave the other pages as they are. -/
theorem framed_kept (before : Database) :
    KeptByStatements urlStatusId (Framed urlStatusId before) := by
  have hkept := keptByStatements_of_tables
    (Q := fun table start =>
      start.rowsExcept urlStatusId = (before.satellites table).rowsExcept urlStatusId ∧
        (before.satellites table).nextId ≤ start.nextId)
    (fun table start h => ⟨Table.rowsExcept_deleteOf.trans h.1, h.2⟩)
    (fun table start conflict row h =>
      ⟨Table.rowsExcept_insert.trans h.1, h.2.trans Table.nextId_le_insert⟩)
  have hframed : (fun db : Database => ∀ table,
      (db.satellites table).rowsExcept urlStatusId =
          (before.satellites table).rowsExcept urlStatusId ∧
        (before.satellites table).nextId ≤ (db.satellites table).nextId) =
      Framed urlStatusId before := by
    funext db
    rw [eq_iff_iff]
    exact ⟨fun h => ⟨fun table => (h table).1, fun table => (h table).2⟩,
      fun h table => ⟨h.others table, h.nextId table⟩⟩
  rwa [hframed] at hkept

/-- The statements of a page give new numbers to its rows. -/
theorem fresh_kept (before : Database) :
    KeptByStatements urlStatusId (Fresh urlStatusId before) := by
  refine keptByStatements_of_tables (Q := fun table start => table ∈ Satellite.core →
    (before.satellites table).nextId ≤ start.nextId ∧
      ∀ row ∈ start.rowsOf urlStatusId, (before.satellites table).nextId ≤ row.id)
    (fun table start h hcore => ?_) (fun table start conflict value h hcore => ?_)
  · rw [Table.rowsOf_deleteOf]
    exact ⟨(h hcore).1, nofun⟩
  · refine ⟨(h hcore).1.trans Table.nextId_le_insert, fun row hrow => ?_⟩
    rcases Table.id_of_mem_rowsOf_insert hrow with hid | ⟨old, hold, hid⟩
    · exact hid ▸ (h hcore).1
    · exact hid ▸ (h hcore).2 old hold

/-! ## Old rows, new rows and gaps -/

/-- What the core transaction of a record should leave. Either the cleanup fails, and the rows of
the page are the old ones, or each table has the rows of the record or a failure that is reported.
-/
structure UnmixedRows (readers : Readers) (faults : Faults) (record : PersistedUrlRecord)
    (db : Database) (outcome : UrlUpsertOutcome) (after : Database) : Prop where
  kept : CleanupFails faults → ∀ table ∈ Satellite.core,
    (after.satellites table).rowsOf outcome.id = (db.satellites table).rowsOf outcome.id
  notCleaned : CleanupFails faults →
    ∃ failure ∈ outcome.satelliteInsertFailures, failure.table = "core_satellites"
  written : ¬ CleanupFails faults → ∀ table ∈ Satellite.core,
    (after.satellites table).valuesOf outcome.id = coreRows readers record table ∨
      Reported coreWriters outcome.satelliteInsertFailures table
  noOldRow : ¬ CleanupFails faults → ∀ table ∈ Satellite.core,
    ∀ row ∈ (after.satellites table).rowsOf outcome.id, (db.satellites table).hasId row.id = false
  others : ∀ table,
    (after.satellites table).rowsExcept outcome.id = (db.satellites table).rowsExcept outcome.id
  otherPages : after.urlStatus.rows.filter (·.id ≠ outcome.id) =
    db.urlStatus.rows.filter (·.id ≠ outcome.id)

/-- A cleanup that fails has not deleted a row before. -/
def NothingDeleted (faults : Faults) (db : Database) (urlStatusId : ℕ) : Prop :=
  CleanupFails faults → ∀ table ∈ cleanedTables faults Satellite.core,
    (db.satellites table).rowsOf urlStatusId = []

/-- The clean-up succeeds if none of its deletes fails. -/
theorem not_cleanupFails :
    ¬ CleanupFails faults ↔ ∀ table ∈ Satellite.core, faults (.delete table) = none := by
  simp [CleanupFails]

/-- A transaction that returns has committed: after a failed cleanup what that has left, and else
what the writers have left. -/
theorem insertUrlRecordImpl_ok {readers : Readers} {record : PersistedUrlRecord}
    {outcome : UrlUpsertOutcome} (hok : insertUrlRecordImpl readers faults db record =
      .ok (outcome, after)) :
    ∃ status inserted, upsertUrlStatusRow faults record.urlRecord db.urlStatus =
        .ok ((outcome.id, inserted), status) ∧
      ((CleanupFails faults ∧
          after = (deleteChildRows faults outcome.id Satellite.core
            { db with urlStatus := status }).2 ∧
          ∃ failure ∈ outcome.satelliteInsertFailures, failure.table = "core_satellites") ∨
        ¬ CleanupFails faults ∧
          ∃ result, writeCoreSatellites faults outcome.id (coreInserts readers record)
              coreWriters [] (deleteChildRows faults outcome.id Satellite.core
                { db with urlStatus := status }).2 = result ∧
            outcome.satelliteInsertFailures = result.1 ∧ after = result.2) := by
  unfold insertUrlRecordImpl at hok
  split at hok
  · cases hok
  · rcases hupsert : upsertUrlStatusRow faults record.urlRecord db.urlStatus with
      message | ⟨⟨id, inserted⟩, status⟩
    · rw [hupsert] at hok
      cases hok
    · rw [hupsert] at hok
      dsimp only at hok
      have hdelete :=
        (deleteChildRows_eq faults id Satellite.core { db with urlStatus := status }).2
      rw [← not_cleanupFails] at hdelete
      rcases hcleaned : deleteChildRows faults id Satellite.core
        { db with urlStatus := status } with ⟨message | ⟨⟩, cleaned⟩
      · rw [hcleaned] at hdelete hok
        split at hok
        · cases hok
        · cases hok
          refine ⟨status, inserted, rfl, .inl ⟨?_, by rw [hcleaned], _,
            List.mem_singleton_self _, rfl⟩⟩
          by_contra hnot
          exact absurd (hdelete.mpr hnot) (by simp [Except.isOk, Except.toBool])
      · rw [hcleaned] at hdelete hok
        split at hok
        · cases hok
        · cases hok
          exact ⟨status, inserted, rfl, .inr ⟨hdelete.mp rfl, _, by rw [hcleaned], rfl, rfl⟩⟩

/-- What the cleanup and the writers keep, the transaction keeps. -/
theorem KeptByStatements.insertUrlRecordImpl {P : Database → Prop} {readers : Readers}
    {record : PersistedUrlRecord} {outcome : UrlUpsertOutcome}
    (hkept : KeptByStatements outcome.id P)
    (hok : insertUrlRecordImpl readers faults db record = .ok (outcome, after))
    (h : ∀ status inserted, upsertUrlStatusRow faults record.urlRecord db.urlStatus =
      .ok ((outcome.id, inserted), status) → P { db with urlStatus := status }) : P after := by
  obtain ⟨status, inserted, hupsert, ⟨-, rfl, -⟩ | ⟨-, _, rfl, -, rfl⟩⟩ :=
    insertUrlRecordImpl_ok hok
  · exact hkept.deleteChildRows (h status inserted hupsert)
  · have hcleaned : P (Storage.deleteChildRows faults outcome.id Satellite.core
        { db with urlStatus := status }).2 := hkept.deleteChildRows (h status inserted hupsert)
    exact hkept.writeCoreSatellites hcleaned

/-- A cleanup that succeeds leaves no rows. -/
theorem rowsOf_cleaned (hclean : ¬ CleanupFails faults) (h : table ∈ Satellite.core) :
    ((deleteChildRows faults urlStatusId Satellite.core db).2.satellites table).rowsOf
      urlStatusId = [] := by
  have hall : cleanedTables faults Satellite.core = Satellite.core := by
    rw [cleanedTables, List.takeWhile_eq_self_iff]
    intro table htable
    rw [not_cleanupFails.mp hclean table htable]
    rfl
  rw [(deleteChildRows_eq ..).1, hall, foldl_deleteOf_rowsOf h]

/-- Only core tables are cleaned. -/
theorem cleanedTables_core (h : table ∈ cleanedTables faults Satellite.core) :
    table ∈ Satellite.core :=
  (List.takeWhile_prefix _).subset h

section Committed

variable {readers : Readers} {record : PersistedUrlRecord} {outcome : UrlUpsertOutcome}

/-- The core transaction leaves the other pages as they are. -/
theorem framed_insertUrlRecordImpl
    (hok : insertUrlRecordImpl readers faults db record = .ok (outcome, after)) :
    Framed outcome.id db after :=
  (framed_kept db).insertUrlRecordImpl hok fun _ _ _ => ⟨fun _ => rfl, fun _ => Nat.le_refl _⟩

/-- The core transaction leaves the rows of the other pages as they are. -/
theorem otherPages_insertUrlRecordImpl
    (hok : insertUrlRecordImpl readers faults db record = .ok (outcome, after)) :
    after.urlStatus.rows.filter (·.id ≠ outcome.id) =
      db.urlStatus.rows.filter (·.id ≠ outcome.id) := by
  have hsame : KeptByStatements outcome.id fun other : Database =>
      other.urlStatus.rows.filter (·.id ≠ outcome.id) =
        db.urlStatus.rows.filter (·.id ≠ outcome.id) :=
    ⟨fun _ _ h => h, fun _ _ _ h => h, fun _ _ _ _ h => h⟩
  exact hsame.insertUrlRecordImpl hok fun _ _ hupsert => (upsertUrlStatusRow_id hupsert).2

/-- After a failed cleanup the tables that it has reached have no rows, and the others the old
ones. -/
theorem rowsOf_of_cleanupFails
    (hok : insertUrlRecordImpl readers faults db record = .ok (outcome, after))
    (hfails : CleanupFails faults) (table : Satellite) :
    (after.satellites table).rowsOf outcome.id =
      if table ∈ cleanedTables faults Satellite.core then []
      else (db.satellites table).rowsOf outcome.id := by
  obtain ⟨status, inserted, -, hrun⟩ := insertUrlRecordImpl_ok hok
  obtain ⟨-, hafter, -⟩ := hrun.resolve_right fun hwritten => hwritten.1 hfails
  rw [hafter, (deleteChildRows_eq ..).1]
  split
  case isTrue hreached => exact foldl_deleteOf_rowsOf hreached
  case isFalse hreached => rw [foldl_deleteOf_satellites_ne hreached]

/-- After a cleanup each table has the rows of the record, or the failure is reported. -/
theorem written_of_cleaned
    (hok : insertUrlRecordImpl readers faults db record = .ok (outcome, after))
    (hclean : ¬ CleanupFails faults) (h : table ∈ Satellite.core) :
    (after.satellites table).valuesOf outcome.id = coreRows readers record table ∨
      Reported coreWriters outcome.satelliteInsertFailures table := by
  obtain ⟨status, inserted, -, hrun⟩ := insertUrlRecordImpl_ok hok
  obtain ⟨-, result, hwrite, hfailures, hafter⟩ :=
    hrun.resolve_left fun hfailed => hclean hfailed.1
  have hnodup : (coreWriters.flatMap Prod.snd).Nodup := by decide
  have hspec := writeCoreSatellites_spec faults outcome.id
    (deleteChildRows faults outcome.id Satellite.core { db with urlStatus := status }).2
    (coreInserts readers record) [] hnodup (coreWriters_tables ▸ h)
  rwa [hwrite, ← hafter, ← hfailures,
    Table.rowsOf_eq_nil.mp (rowsOf_cleaned hclean h)] at hspec

/-- After a cleanup the rows of the page are new. -/
theorem fresh_of_cleaned
    (hok : insertUrlRecordImpl readers faults db record = .ok (outcome, after))
    (hclean : ¬ CleanupFails faults) : Fresh outcome.id db after := by
  obtain ⟨status, inserted, -, hrun⟩ := insertUrlRecordImpl_ok hok
  obtain ⟨-, result, hwrite, -, hafter⟩ := hrun.resolve_left fun hfailed => hclean hfailed.1
  have hframed : Framed outcome.id db (deleteChildRows faults outcome.id Satellite.core
      { db with urlStatus := status }).2 :=
    (framed_kept db).deleteChildRows ⟨fun _ => rfl, fun _ => Nat.le_refl _⟩
  have hstart : Fresh outcome.id db (deleteChildRows faults outcome.id Satellite.core
      { db with urlStatus := status }).2 := by
    intro other hother
    rw [rowsOf_cleaned hclean hother]
    exact ⟨hframed.nextId other, nofun⟩
  rw [hafter, ← hwrite]
  exact (fresh_kept db).writeCoreSatellites hstart

/-- A fresh row has a number that was not there before. -/
theorem Fresh.hasId_eq (h : Fresh urlStatusId db after) (htable : table ∈ Satellite.core)
    {row : Row (List Value)} (hrow : row ∈ (after.satellites table).rowsOf urlStatusId) :
    (db.satellites table).hasId row.id = false := by
  have hnew := (h table htable).2 row hrow
  by_contra hold
  rw [Bool.not_eq_false, Table.hasId, List.any_eq_true] at hold
  obtain ⟨old, holdRow, hsame⟩ := hold
  have hlt := (db.satellites table).id_lt old holdRow
  rw [of_decide_eq_true hsame] at hlt
  omega

/-- A table that the cleanup has reached has no rows left, so that it had none before. -/
theorem UnmixedRows.nothingDeleted
    (hok : insertUrlRecordImpl readers faults db record = .ok (outcome, after))
    (hunmixed : UnmixedRows readers faults record db outcome after) :
    NothingDeleted faults db outcome.id := by
  intro hfails table htable
  have hkept := hunmixed.kept hfails table (cleanedTables_core htable)
  rw [← hkept, rowsOf_of_cleanupFails hok hfails, if_pos htable]

end Committed

/-- The core transaction leaves no mixed or half-deleted rows exactly when a cleanup that fails has
not deleted a row of the page before. -/
theorem insert_url_record_unmixed_iff (readers : Readers) (faults : Faults) (db : Database)
    (record : PersistedUrlRecord) {outcome : UrlUpsertOutcome} {after : Database}
    (hok : insertUrlRecordImpl readers faults db record = .ok (outcome, after)) :
    UnmixedRows readers faults record db outcome after ↔
      NothingDeleted faults db (db.urlStatus.idFor record.urlRecord) := by
  obtain ⟨status, inserted, hupsert, hrun⟩ := insertUrlRecordImpl_ok hok
  rw [← (upsertUrlStatusRow_id hupsert).1]
  constructor
  · exact UnmixedRows.nothingDeleted hok
  · intro hnothing
    refine ⟨fun hfails table _ => ?_, fun hfails => ?_, fun hclean table htable => ?_,
      fun hclean table htable row hrow => ?_, (framed_insertUrlRecordImpl hok).others,
      otherPages_insertUrlRecordImpl hok⟩
    · rw [rowsOf_of_cleanupFails hok hfails]
      split
      case isTrue hreached => exact (hnothing hfails table hreached).symm
      case isFalse => rfl
    · exact (hrun.resolve_right fun hwritten => hwritten.1 hfails).2.2
    · exact written_of_cleaned hok hclean htable
    · exact (fresh_of_cleaned hok hclean).hasId_eq htable hrow

/-- A scan of a page on which one technology is found. -/
def technologyRecord (name : String) : PersistedUrlRecord where
  urlRecord := { (default : UrlRecord) with initialDomain := "example.com", runId := some "run" }
  technologies := [⟨name, none, none, false, none⟩]

/-- The database after one scan. -/
def scannedOnce (record : PersistedUrlRecord) : Database :=
  match insertUrlRecordImpl idleReaders noFaults Database.empty record with
  | .ok (_, db) => db
  | .error _ => Database.empty

/-- One `DELETE` fails. -/
def deleteFails (table : Satellite) : Faults := fun statement =>
  if statement = .delete table then some "disk I/O error" else none

/-- When the first `DELETE` fails, the old rows stay. -/
theorem insert_url_record_keeps_old_rows :
    ∃ outcome after, insertUrlRecordImpl idleReaders (deleteFails .technologies)
        (scannedOnce (technologyRecord "WordPress")) (technologyRecord "PHP") =
          .ok (outcome, after) ∧
      UnmixedRows idleReaders (deleteFails .technologies) (technologyRecord "PHP")
        (scannedOnce (technologyRecord "WordPress")) outcome after :=
  ⟨_, _, rfl, (insert_url_record_unmixed_iff idleReaders (deleteFails .technologies)
    (scannedOnce (technologyRecord "WordPress")) (technologyRecord "PHP") rfl).mpr
      fun _ => by simp [cleanedTables, Satellite.core, deleteFails]⟩

/-- When the second `DELETE` fails, the technologies are gone and the other old rows stay. -/
theorem insert_url_record_half_deletes :
    ∃ outcome after, insertUrlRecordImpl idleReaders (deleteFails .nameservers)
        (scannedOnce (technologyRecord "WordPress")) (technologyRecord "PHP") =
          .ok (outcome, after) ∧
      ¬ UnmixedRows idleReaders (deleteFails .nameservers) (technologyRecord "PHP")
        (scannedOnce (technologyRecord "WordPress")) outcome after := by
  refine ⟨_, _, rfl, fun hunmixed => ?_⟩
  have hnothing := UnmixedRows.nothingDeleted rfl hunmixed
  have hold := hnothing ⟨.nameservers, by decide, by decide⟩ .technologies (by decide)
  exact absurd (Table.rowsOf_eq_nil.mp hold) (by decide)

end DomainStatus.Storage
