import DomainStatus.Storage.Frame

/-!
# The database as a map of pages

What the storage layer is for: under each key `(run_id, initial_domain)` there is one page, and a
record that is stored replaces its facts and then its enrichments. `Pages.step` says so for a plain
map. Read `run_page` first: whatever the interleaving of the transactions of many calls with many
keys, the tables show what the map has. By `run_page_last` this is, for each key, the record of the
last core transaction with the enrichments of the last enrichment transaction.
-/

namespace DomainStatus.Storage

/-- What is stored for a page. The numbers of rows do not show. -/
@[ext]
structure Page where
  fact : List Value
  rows : Satellite → List (List Value)
  claims : List (List Value × List Value)

namespace Page

/-- The facts and core rows of a record, with the enrichments that are there. -/
def storeCore (readers : Readers) (record : PersistedUrlRecord) (page : Option Page) : Page where
  fact := statusRow record.urlRecord
  rows table :=
    if table ∈ Satellite.core then coreRows readers record table
    else (page.map (·.rows table)).getD []
  claims := (page.map claims).getD []

/-- The enrichments of a record, with the facts and core rows that are there. -/
def storeEnrichment (write : WriteStrings) (record : PersistedUrlRecord) (page : Page) : Page where
  fact := page.fact
  rows table :=
    if table ∈ Satellite.core then page.rows table else enrichmentRows write record table
  claims := recordClaims record

end Page

/-- The page of a row of `url_status`. -/
def Database.pageOf (db : Database) (row : Row (List Value)) : Page where
  fact := row.value
  rows table := (db.satellites table).valuesOf row.id
  claims := db.claimsOf row.id

/-- The page with a key. -/
def Database.page (db : Database) (key : Value × Value) : Option Page :=
  (db.urlStatus.withKey key).head?.map db.pageOf

/-! ## One transaction -/

section Transaction

variable {faults : Faults} {readers : Readers} {write : WriteStrings} {record : PersistedUrlRecord}
  {key other : Value × Value} {db after : Database} {row : Row (List Value)}

/-- The rows with a key. -/
theorem StatusTable.mem_withKey {table : StatusTable} :
    row ∈ table.withKey key ↔ row ∈ table.rows ∧ statusKey row.value = some key := by
  simp [withKey]

/-- The page of a key that has a row. -/
theorem page_eq (h : db.urlStatus.withKey key = [row]) : db.page key = some (db.pageOf row) := by
  rw [Database.page, h]
  rfl

/-- A key has no row or one. -/
theorem withKey_cases (db : Database) (key : Value × Value) :
    db.urlStatus.withKey key = [] ∨ ∃ row, db.urlStatus.withKey key = [row] := by
  have hle := db.urlStatus.length_withKey_le key
  cases hrows : db.urlStatus.withKey key with
  | nil => exact .inl rfl
  | cons row rest =>
      rw [hrows, List.length_cons] at hle
      have hrest : rest = [] := List.length_eq_zero_iff.mp (by omega)
      exact .inr ⟨row, by rw [hrest]⟩

/-- The rows with other keys do not change. -/
theorem upsertUrlStatusRow_withKey_ne {urlRecord : UrlRecord} {table status : StatusTable} {id : ℕ}
    {inserted : Bool}
    (h : upsertUrlStatusRow faults urlRecord table = .ok ((id, inserted), status))
    (hne : statusKey (statusRow urlRecord) ≠ some other) :
    status.withKey other = table.withKey other := by
  rcases upsertUrlStatusRow_cases h with hinsert | ⟨-, hupdate⟩
  · unfold StatusTable.insert at hinsert
    split at hinsert
    · cases hinsert
    · cases hinsert
      simp [StatusTable.withKey, Table.push, List.filter_append, hne]
  · rw [StatusTable.update, Prod.mk.injEq] at hupdate
    obtain ⟨-, rfl⟩ := hupdate
    simp only [StatusTable.withKey, Table.mapValues, List.filter_map, Function.comp_def,
      statusKey_update]
    refine (List.map_congr_left fun row hrow => ?_).trans (List.map_id _)
    have hkey : statusKey row.value = some other := by simpa using List.of_mem_filter hrow
    have hother : sameStatusKey row.value (statusRow urlRecord) = false := by
      rw [Bool.eq_false_iff, ne_eq, sameStatusKey_iff, hkey]
      exact fun h => hne h.2.symm
    simp [hother]

/-- A record does not take the key of a row. -/
def Apart (urlRecord : UrlRecord) (row : Row (List Value)) : Prop :=
  statusKey row.value = none ∨ statusKey (statusRow urlRecord) ≠ statusKey row.value

/-- The number that a record gets is not that of a row whose key it does not take. -/
theorem Apart.idFor_ne {table : StatusTable} {urlRecord : UrlRecord} (h : Apart urlRecord row)
    (hrow : row ∈ table.rows) : row.id ≠ table.idFor urlRecord := by
  rw [StatusTable.idFor]
  cases hfind : table.rows.find? fun row => sameStatusKey row.value (statusRow urlRecord) with
  | none => exact Nat.ne_of_lt (table.id_lt row hrow)
  | some found =>
      intro hid
      have hkey := List.find?_some hfind
      obtain ⟨hsome, hfound⟩ := sameStatusKey_iff.mp hkey
      have hsame : row = found :=
        List.inj_on_of_nodup_map table.nodup hrow (List.mem_of_find?_eq_some hfind) hid
      rcases h with hnone | hne
      · rw [← hsame, hnone] at hsome
        cases hsome
      · exact hne (by rw [hsame, hfound])

/-- A row of another key is apart from the record. -/
theorem apart_of_withKey {table : StatusTable} {urlRecord : UrlRecord}
    (hkey : statusKey (statusRow urlRecord) = some key) (hrow : row ∈ table.withKey other)
    (hne : other ≠ key) : Apart urlRecord row := by
  right
  rw [hkey, (StatusTable.mem_withKey.mp hrow).2, ne_eq, Option.some.injEq]
  exact hne.symm

/-- The core transaction leaves the rows of other keys. -/
theorem insertUrlRecordImpl_withKey_ne {outcome : UrlUpsertOutcome}
    (hok : insertUrlRecordImpl readers faults db record = .ok (outcome, after))
    (hne : statusKey (statusRow record.urlRecord) ≠ some other) :
    after.urlStatus.withKey other = db.urlStatus.withKey other := by
  have hsame : KeptByStatements outcome.id fun middle : Database =>
      middle.urlStatus.withKey other = db.urlStatus.withKey other :=
    ⟨fun _ _ h => h, fun _ _ _ h => h, fun _ _ _ _ h => h⟩
  exact hsame.insertUrlRecordImpl hok fun status inserted hupsert =>
    upsertUrlStatusRow_withKey_ne hupsert hne

/-- An isolated step leaves the pages of other rows. -/
theorem pageOf_congr {urlStatusId : ℕ} (hisolated : Isolated urlStatusId db after)
    (hne : row.id ≠ urlStatusId) : after.pageOf row = db.pageOf row := by
  rw [Database.pageOf, Database.pageOf, hisolated.claims row.id hne]
  simp only [hisolated.valuesOf hne]

/-- A page that no statement was for is the same. -/
theorem page_congr {urlStatusId : ℕ} (hisolated : Isolated urlStatusId db after)
    (hrows : after.urlStatus.withKey other = db.urlStatus.withKey other)
    (hne : ∀ row ∈ db.urlStatus.withKey other, row.id ≠ urlStatusId) :
    after.page other = db.page other := by
  rw [Database.page, Database.page, hrows]
  exact Option.map_congr fun row hrow =>
    pageOf_congr hisolated (hne row (List.mem_of_head? hrow))

/-- Whatever fails, a core transaction leaves pages with other keys alone. -/
theorem page_insertUrlRecordImpl_ne {outcome : UrlUpsertOutcome}
    (hkey : statusKey (statusRow record.urlRecord) = some key)
    (hok : insertUrlRecordImpl readers faults db record = .ok (outcome, after))
    (hne : other ≠ key) : after.page other = db.page other := by
  obtain ⟨status, inserted, hupsert, -⟩ := insertUrlRecordImpl_ok hok
  have hother : statusKey (statusRow record.urlRecord) ≠ some other := by
    rw [hkey, ne_eq, Option.some.injEq]
    exact hne.symm
  refine page_congr (isolated_insertUrlRecordImpl hok)
    (insertUrlRecordImpl_withKey_ne hok hother) fun row hrow => ?_
  rw [(upsertUrlStatusRow_id hupsert).1]
  exact (apart_of_withKey hkey hrow hne).idFor_ne (StatusTable.mem_withKey.mp hrow).1

/-- The enrichment transaction does not touch the main table. -/
theorem insertEnrichmentData_urlStatus (urlStatusId : ℕ)
    (coreFailures : List SatelliteWriteFailure) :
    (insertEnrichmentData write faults db urlStatusId record coreFailures).2.urlStatus =
      db.urlStatus := by
  have hsame : KeptByStatements urlStatusId fun middle : Database =>
      middle.urlStatus = db.urlStatus :=
    ⟨fun _ _ h => h, fun _ _ _ h => h, fun _ _ _ _ h => h⟩
  unfold insertEnrichmentData
  cases hok : insertEnrichmentTxn write faults db urlStatusId record coreFailures with
  | ok _ => exact hsame.insertEnrichmentTxn rfl hok
  | error _ => rfl

/-- Whatever fails, an enrichment transaction leaves pages with other keys alone. -/
theorem page_insertEnrichmentData_ne {urlStatusId : ℕ} {coreFailures : List SatelliteWriteFailure}
    (hne : ∀ row ∈ db.urlStatus.withKey other, row.id ≠ urlStatusId) :
    (insertEnrichmentData write faults db urlStatusId record coreFailures).2.page other =
      db.page other := by
  refine page_congr (isolated_insertEnrichmentData faults write db urlStatusId record _) ?_ hne
  rw [insertEnrichmentData_urlStatus]

/-- A number without a row has no page in a linked database. -/
theorem values_of_unlinked {id : ℕ} (hlinked : Linked db) (hid : db.urlStatus.hasId id = false) :
    (∀ table, (db.satellites table).valuesOf id = []) ∧ db.claimsOf id = [] := by
  have hvalues : ∀ table, (db.satellites table).valuesOf id = [] := by
    intro table
    rw [← Table.rowsOf_eq_nil, Table.rowsOf, List.filter_eq_nil_iff]
    intro row hrow hparent
    rw [decide_eq_true_eq] at hparent
    rw [← hparent, hlinked table row hrow] at hid
    cases hid
  refine ⟨hvalues, ?_⟩
  rw [Database.claimsOf, Table.joined, List.filterMap_eq_nil_iff]
  intro claim _
  rw [secretKeys_eq_none (hvalues _), Option.map_none]

/-- A record with a new key gets a number that no row has. -/
theorem hasId_idFor {table : StatusTable} {urlRecord : UrlRecord}
    (hkey : statusKey (statusRow urlRecord) = some key) (hnone : table.withKey key = []) :
    table.hasId (table.idFor urlRecord) = false := by
  have hfind : (table.rows.find? fun row => sameStatusKey row.value (statusRow urlRecord)) =
      none := by
    rw [List.find?_eq_none]
    intro row hrow hsame
    rw [sameStatusKey_eq hkey, decide_eq_true_eq] at hsame
    have hmem := StatusTable.mem_withKey.mpr ⟨hrow, hsame⟩
    rw [hnone] at hmem
    cases hmem
  rw [StatusTable.idFor, hfind, Bool.eq_false_iff]
  intro hhas
  obtain ⟨row, hrow, hid⟩ := List.any_eq_true.mp hhas
  have hlt := table.id_lt row hrow
  rw [of_decide_eq_true hid] at hlt
  exact Nat.lt_irrefl _ hlt

variable (readers) in
/-- Without failures a core transaction stores the facts and the core rows of its record. -/
theorem page_insertUrlRecordImpl (hlinked : Linked db)
    (hkey : statusKey (statusRow record.urlRecord) = some key) :
    ∃ outcome after, insertUrlRecordImpl readers noFaults db record = .ok (outcome, after) ∧
      outcome.satelliteInsertFailures = [] ∧
      (∃ row, after.urlStatus.withKey key = [row] ∧ row.id = outcome.id) ∧
      (∀ old ∈ db.urlStatus.withKey key, old.id = outcome.id) ∧
      after.page key = some (Page.storeCore readers record (db.page key)) := by
  obtain ⟨outcome, after, hok, hcore, hfailures, -, hold, hkept, hclaims⟩ :=
    insertUrlRecordImpl_replaces readers hkey db
  obtain ⟨row, hrow, hid, hvalue⟩ := hcore.status
  have hsecrets : after.secretKeys outcome.id = db.secretKeys outcome.id :=
    secretKeys_congr (by rw [hkept _ (by decide)])
  have hclaimsOf : after.claimsOf outcome.id = db.claimsOf outcome.id := by
    rw [Database.claimsOf, Database.claimsOf, hclaims, hsecrets]
  -- What is there for the number is the old page.
  have hpage : (∀ table, (db.satellites table).valuesOf outcome.id =
        ((db.page key).map (·.rows table)).getD []) ∧
      db.claimsOf outcome.id = ((db.page key).map Page.claims).getD [] := by
    rcases withKey_cases db key with hnone | ⟨old, hsome⟩
    · obtain ⟨status, inserted, hupsert, -⟩ := insertUrlRecordImpl_ok hok
      have hfresh : db.urlStatus.hasId outcome.id = false := by
        rw [(upsertUrlStatusRow_id hupsert).1]
        exact hasId_idFor hkey hnone
      have hempty : db.page key = none := by
        rw [Database.page, hnone]
        rfl
      rw [hempty]
      exact values_of_unlinked hlinked hfresh
    · rw [page_eq hsome, ← hold old hsome]
      exact ⟨fun _ => rfl, rfl⟩
  refine ⟨outcome, after, hok, hfailures, ⟨row, hrow, hid⟩, fun old holdRow => ?_, ?_⟩
  · rcases withKey_cases db key with hnone | ⟨found, hsome⟩
    · rw [hnone] at holdRow
      cases holdRow
    · rw [hsome, List.mem_singleton] at holdRow
      rw [holdRow]
      exact hold found hsome
  · rw [page_eq hrow, Option.some.injEq, Database.pageOf, hid, hvalue, Page.storeCore, ← hpage.2,
      ← hclaimsOf]
    congr 1
    funext table
    split
    case isTrue htable => exact hcore.rows table htable
    case isFalse htable =>
      rw [hkept table htable]
      exact hpage.1 table

/-- Without failures an enrichment transaction stores the enrichments of its record. -/
theorem page_insertEnrichmentData (write : WriteStrings) (record : PersistedUrlRecord)
    (hrow : db.urlStatus.withKey key = [row]) :
    (insertEnrichmentData write noFaults db row.id record []).2.page key =
      (db.page key).map (Page.storeEnrichment write record) := by
  obtain ⟨summary, after, hok, henriched, hstatus, hkept⟩ :=
    insertEnrichmentTxn_replaces row.id write record db
  have hafter : after.urlStatus.withKey key = [row] := by rw [hstatus, hrow]
  have hdata : (insertEnrichmentData write noFaults db row.id record []).2 = after := by
    rw [insertEnrichmentData, hok]
  rw [hdata, page_eq hafter, page_eq hrow, Option.map_some, Option.some.injEq, Database.pageOf,
    Page.storeEnrichment, henriched.claims]
  congr 1
  funext table
  split
  case isTrue htable =>
    rw [hkept table htable]
    rfl
  case isFalse htable =>
    exact henriched.rows table ((Satellite.mem_enrichment_iff table).mpr htable)

end Transaction

/-! ## Runs -/

/-- The pages by their keys. -/
abbrev Pages := Value × Value → Option Page

section Runs

variable {ι : Type} [DecidableEq ι] {readers : Readers} {write : WriteStrings}
  {records : ι → PersistedUrlRecord} {keys : ι → Value × Value} {before : Database}
  {schedule : List (Step ι)} {calls : Calls ι} {pages : Pages}

/-- What a transaction is for: it stores a part of its record under the key of the record. -/
def Pages.step (readers : Readers) (write : WriteStrings) (records : ι → PersistedUrlRecord)
    (keys : ι → Value × Value) (pages : Pages) : Step ι → Pages
  | .core caller =>
      Function.update pages (keys caller)
        (some (Page.storeCore readers (records caller) (pages (keys caller))))
  | .enrichment caller =>
      Function.update pages (keys caller)
        ((pages (keys caller)).map (Page.storeEnrichment write (records caller)))

/-- The steps of a schedule on the map, one after the other. -/
def Pages.run (readers : Readers) (write : WriteStrings) (records : ι → PersistedUrlRecord)
    (keys : ι → Value × Value) (pages : Pages) (schedule : List (Step ι)) : Pages :=
  schedule.foldl (Pages.step readers write records keys) pages

/-- The tables show the pages, and each call that has begun knows the row of its page. -/
structure Shows (keys : ι → Value × Value) (schedule : List (Step ι)) (calls : Calls ι)
    (pages : Pages) : Prop where
  linked : Linked calls.db
  started : ∀ caller, .core caller ∈ schedule → (calls.upserts caller).isSome = true
  failures : ∀ caller upsert, calls.upserts caller = some upsert →
    upsert.satelliteInsertFailures = []
  row : ∀ caller upsert, calls.upserts caller = some upsert →
    ∃ row, calls.db.urlStatus.withKey (keys caller) = [row] ∧ row.id = upsert.id
  pages : calls.db.page = pages

variable (write) in
/-- A core transaction is shown by the pages. -/
theorem Shows.core (hkeys : ∀ caller, statusKey (statusRow (records caller).urlRecord) =
      some (keys caller)) (h : Shows keys schedule calls pages) (caller : ι) :
    Shows keys (schedule ++ [.core caller]) (calls.step readers write records (.core caller))
      (pages.step readers write records keys (.core caller)) := by
  obtain ⟨outcome, after, hok, hfailures, ⟨row, hrow, hid⟩, hold, hpage⟩ :=
    page_insertUrlRecordImpl readers h.linked (hkeys caller)
  have hstep : calls.step readers write records (.core caller) =
      { db := after, upserts := Function.update calls.upserts caller (some outcome) } := by
    rw [Calls.step, hok]
  rw [hstep]
  refine ⟨(linked_insertUrlRecordImpl h.linked hok).1, fun other hother => ?_,
    fun other upsert hupsert => ?_, fun other upsert hupsert => ?_, ?_⟩
  · show (Function.update calls.upserts caller (some outcome) other).isSome = true
    rw [Function.update_apply]
    split
    case isTrue => rfl
    case isFalse hne =>
      have hmem : Step.core other ∈ schedule := by
        rcases List.mem_append.mp hother with hmem | hmem
        · exact hmem
        · cases List.mem_singleton.mp hmem
          exact absurd rfl hne
      exact h.started other hmem
  · simp only [Function.update_apply] at hupsert
    split at hupsert
    · cases hupsert
      exact hfailures
    · exact h.failures other upsert hupsert
  · simp only [Function.update_apply] at hupsert
    split at hupsert
    case isTrue hother =>
      subst hother
      cases hupsert
      exact ⟨row, hrow, hid⟩
    case isFalse =>
      obtain ⟨found, hfound, hfoundId⟩ := h.row other upsert hupsert
      by_cases hsame : keys other = keys caller
      · rw [hsame] at hfound ⊢
        exact ⟨row, hrow, by rw [hid, ← hfoundId, hold found (by simp [hfound])]⟩
      · refine ⟨found, ?_, hfoundId⟩
        rw [insertUrlRecordImpl_withKey_ne hok, hfound]
        rw [hkeys caller, ne_eq, Option.some.injEq]
        exact fun heq => hsame heq.symm
  · funext key
    by_cases hkey : key = keys caller
    · subst hkey
      rw [hpage, Pages.step, Function.update_self, h.pages]
    · rw [page_insertUrlRecordImpl_ne (hkeys caller) hok hkey, Pages.step,
        Function.update_of_ne hkey, h.pages]

variable (readers) in
/-- An enrichment transaction is shown by the pages. -/
theorem Shows.enrichment (h : Shows keys schedule calls pages) {caller : ι}
    (hcaller : .core caller ∈ schedule) :
    Shows keys (schedule ++ [.enrichment caller])
      (calls.step readers write records (.enrichment caller))
      (pages.step readers write records keys (.enrichment caller)) := by
  obtain ⟨upsert, hupsert⟩ := Option.isSome_iff_exists.mp (h.started caller hcaller)
  obtain ⟨row, hrow, hid⟩ := h.row caller upsert hupsert
  obtain ⟨summary, after, hrun⟩ : ∃ summary after,
      insertEnrichmentData write noFaults calls.db row.id (records caller) [] =
        (summary, after) := ⟨_, _, rfl⟩
  have hstep : calls.step readers write records (.enrichment caller) =
      { db := after
        upserts := Function.update calls.upserts caller (some { upsert with
          partialFailuresInserted := summary.partialFailuresInserted
          satelliteInsertErrorsInserted := summary.satelliteInsertErrorsInserted }) } := by
    simp only [Calls.step, hupsert, h.failures caller upsert hupsert, ← hid, hrun]
  have hafter : (insertEnrichmentData write noFaults calls.db row.id (records caller) []).2 =
      after := by rw [hrun]
  have hstatus : after.urlStatus = calls.db.urlStatus := by
    rw [← hafter, insertEnrichmentData_urlStatus]
  have hhas : calls.db.urlStatus.hasId row.id = true :=
    List.any_eq_true.mpr ⟨row, (StatusTable.mem_withKey.mp (by rw [hrow]; simp)).1, by simp⟩
  -- Numbers and failures of the upserts do not change.
  have hold : ∀ other found, Function.update calls.upserts caller (some { upsert with
      partialFailuresInserted := summary.partialFailuresInserted
      satelliteInsertErrorsInserted := summary.satelliteInsertErrorsInserted }) other =
        some found → ∃ old, calls.upserts other = some old ∧ found.id = old.id ∧
          found.satelliteInsertFailures = old.satelliteInsertFailures := by
    intro other found hfound
    rw [Function.update_apply] at hfound
    split at hfound
    case isTrue hother =>
      subst hother
      cases hfound
      exact ⟨upsert, hupsert, rfl, rfl⟩
    case isFalse => exact ⟨found, hfound, rfl, rfl⟩
  rw [hstep]
  refine ⟨?_, fun other hother => ?_, fun other found hfound => ?_, fun other found hfound => ?_,
    ?_⟩
  · rw [← hafter]
    exact linked_insertEnrichmentData h.linked hhas
  · show (Function.update calls.upserts caller _ other).isSome = true
    rw [Function.update_apply]
    split
    · rfl
    · rcases List.mem_append.mp hother with hmem | hmem
      · exact h.started other hmem
      · cases List.mem_singleton.mp hmem
  · obtain ⟨old, holdUpsert, -, hfailures⟩ := hold other found hfound
    rw [hfailures]
    exact h.failures other old holdUpsert
  · obtain ⟨old, holdUpsert, hfoundId, -⟩ := hold other found hfound
    rw [hstatus, hfoundId]
    exact h.row other old holdUpsert
  · funext key
    by_cases hkey : key = keys caller
    · subst hkey
      rw [← hafter, page_insertEnrichmentData write (records caller) hrow, Pages.step,
        Function.update_self, h.pages]
    · rw [← hafter, page_insertEnrichmentData_ne, Pages.step, Function.update_of_ne hkey, h.pages]
      intro found hfound hsame
      -- the row of another key has another number
      obtain ⟨hmem, hfoundKey⟩ := StatusTable.mem_withKey.mp hfound
      obtain ⟨hrowMem, hrowKey⟩ := StatusTable.mem_withKey.mp (by rw [hrow]; simp : row ∈ _)
      have heq : found = row :=
        List.inj_on_of_nodup_map calls.db.urlStatus.nodup hmem hrowMem hsame
      rw [heq, hrowKey, Option.some.injEq] at hfoundKey
      exact hkey hfoundKey.symm

/-- Every run shows what the map has. -/
theorem shows_run (readers : Readers) (write : WriteStrings) {records : ι → PersistedUrlRecord}
    (hkeys : ∀ caller, statusKey (statusRow (records caller).urlRecord) = some (keys caller))
    (hlinked : Linked before) (hschedule : Ordered schedule) :
    Shows keys schedule (Calls.run readers write records before schedule)
      (Pages.run readers write records keys before.page schedule) := by
  induction schedule using List.reverseRecOn with
  | nil => exact ⟨hlinked, nofun, nofun, nofun, rfl⟩
  | append_singleton schedule step ih =>
      have hbefore := ih hschedule.dropLast
      rw [Calls.run, Pages.run, List.foldl_append, List.foldl_append] at *
      cases step with
      | core caller => exact hbefore.core write hkeys caller
      | enrichment caller => exact hbefore.enrichment readers hschedule.core_mem

/-- Scans of two pages in one run. -/
def twoPages : Caller → PersistedUrlRecord :=
  pair (titledRecord "first" 1)
    { titledRecord "second" 2 with urlRecord :=
        { (titledRecord "second" 2).urlRecord with initialDomain := "example.org" } }

/-- The keys of the two example pages. -/
def twoKeys : Caller → Value × Value
  | .first => (.text "run", .text "example.com")
  | .second => (.text "run", .text "example.org")

/-- The keys of the two pages. -/
theorem twoPages_key (caller : Caller) :
    statusKey (statusRow (twoPages caller).urlRecord) = some (twoKeys caller) := by
  cases caller <;> rfl

/-- The second scan runs between the transactions of the first. -/
def nested : List (Step Caller) :=
  [.core .first, .core .second, .enrichment .second, .enrichment .first]

/-- The nested transactions are in order. -/
theorem ordered_nested : Ordered nested :=
  Interleaving.ordered fun caller => by cases caller <;> rfl

/-- The transactions for a key. -/
def ofKey (keys : ι → Value × Value) (key : Value × Value) (schedule : List (Step ι)) :
    List (Step ι) :=
  schedule.filter fun step => keys step.caller = key

omit [DecidableEq ι] in
/-- The steps of a key, with one step more. -/
theorem ofKey_concat (key : Value × Value) (step : Step ι) :
    ofKey keys key (schedule ++ [step]) =
      ofKey keys key schedule ++ if keys step.caller = key then [step] else [] := by
  rw [ofKey, List.filter_append, ofKey]
  by_cases hkey : keys step.caller = key <;> simp [hkey]

/-- The page that the last two transactions for a key leave. -/
def Page.settled (readers : Readers) (write : WriteStrings) :
    Option PersistedUrlRecord → Option PersistedUrlRecord → Option Page → Option Page
  | none, _, page => page
  | some core, none, page => some (storeCore readers core page)
  | some core, some enriched, _ =>
      some (storeEnrichment write enriched (storeCore readers core none))

namespace Page

variable {core last enriched : PersistedUrlRecord} {page : Page} {old : Option Page}

/-- The last core transaction counts. -/
theorem storeCore_storeCore :
    storeCore readers last (some (storeCore readers core old)) = storeCore readers last old := by
  ext1
  · rfl
  · funext table
    by_cases htable : table ∈ Satellite.core <;> simp [storeCore, htable]
  · rfl

/-- Core and enrichment are stored apart. -/
theorem storeCore_storeEnrichment :
    storeCore readers last (some (storeEnrichment write enriched page)) =
      storeEnrichment write enriched (storeCore readers last none) := by
  ext1
  · rfl
  · funext table
    by_cases htable : table ∈ Satellite.core <;> simp [storeCore, storeEnrichment, htable]
  · rfl

/-- Enrichments of before do not matter. -/
theorem storeEnrichment_storeCore :
    storeEnrichment write enriched (storeCore readers core old) =
      storeEnrichment write enriched (storeCore readers core none) := by
  ext1
  · rfl
  · funext table
    by_cases htable : table ∈ Satellite.core <;> simp [storeCore, storeEnrichment, htable]
  · rfl

/-- The last enrichment transaction counts. -/
theorem storeEnrichment_storeEnrichment :
    storeEnrichment write last (storeEnrichment write enriched page) =
      storeEnrichment write last page := by
  ext1
  · rfl
  · funext table
    by_cases htable : table ∈ Satellite.core <;> simp [storeEnrichment, htable]
  · rfl

end Page

/-- An enrichment transaction for a key comes after a core transaction for it. -/
theorem Ordered.ofKey_core_mem (hschedule : Ordered schedule) {key : Value × Value}
    (hnone : lastCore (ofKey keys key schedule) = none) : ofKey keys key schedule = [] := by
  induction schedule using List.reverseRecOn with
  | nil => rfl
  | append_singleton schedule step ih =>
      rw [ofKey_concat] at hnone ⊢
      by_cases hkey : keys step.caller = key
      · rw [if_pos hkey] at hnone
        cases step with
        | core caller => simp at hnone
        | enrichment caller =>
            rw [lastCore_enrichment] at hnone
            have hmem : Step.core caller ∈ ofKey keys key schedule :=
              List.mem_filter.mpr ⟨hschedule.core_mem, decide_eq_true hkey⟩
            exact absurd hmem (lastCore_eq_none.mp hnone caller)
      · rw [if_neg hkey, List.append_nil] at hnone ⊢
        exact ih hschedule.dropLast hnone

omit [DecidableEq ι] in
/-- A run with one step more. -/
theorem Pages.run_concat (step : Step ι) :
    Pages.run readers write records keys pages (schedule ++ [step]) =
      (Pages.run readers write records keys pages schedule).step readers write records keys step :=
  List.foldl_concat ..

/-- In the map the last transactions for a key win. -/
theorem Pages.run_apply (hschedule : Ordered schedule) (key : Value × Value) :
    Pages.run readers write records keys pages schedule key =
      Page.settled readers write ((lastCore (ofKey keys key schedule)).map records)
        ((lastEnrichment (ofKey keys key schedule)).map records) (pages key) := by
  induction schedule using List.reverseRecOn with
  | nil => rfl
  | append_singleton schedule step ih =>
      have hbefore := ih hschedule.dropLast
      rw [Pages.run_concat, ofKey_concat]
      by_cases hkey : keys step.caller = key
      · rw [if_pos hkey]
        cases step with
        | core caller =>
            obtain rfl : keys caller = key := hkey
            rw [lastCore_core, lastEnrichment_core, Pages.step, Function.update_self, hbefore]
            cases hcore : lastCore (ofKey keys (keys caller) schedule) with
            | none =>
                rw [hschedule.dropLast.ofKey_core_mem hcore]
                rfl
            | some last =>
                cases lastEnrichment (ofKey keys (keys caller) schedule) with
                | none => exact congrArg some Page.storeCore_storeCore
                | some enriched => exact congrArg some Page.storeCore_storeEnrichment
        | enrichment caller =>
            obtain rfl : keys caller = key := hkey
            rw [lastCore_enrichment, lastEnrichment_enrichment, Pages.step, Function.update_self,
              hbefore]
            have hmem : Step.core caller ∈ ofKey keys (keys caller) schedule :=
              List.mem_filter.mpr ⟨hschedule.core_mem, by simp [Step.caller]⟩
            obtain ⟨last, hlast⟩ := exists_lastCore hmem
            rw [hlast]
            cases lastEnrichment (ofKey keys (keys caller) schedule) with
            | none => exact congrArg some Page.storeEnrichment_storeCore
            | some enriched => exact congrArg some Page.storeEnrichment_storeEnrichment
      · rw [if_neg hkey, List.append_nil, ← hbefore]
        cases step with
        | core caller => exact Function.update_of_ne (Ne.symm hkey) _ _
        | enrichment caller => exact Function.update_of_ne (Ne.symm hkey) _ _

/-- A transaction of a call, in which statements may fail. Without a commit nothing is stored. -/
def Calls.attempt (readers : Readers) (write : WriteStrings) (records : ι → PersistedUrlRecord)
    (calls : Calls ι) (faults : Faults) : Step ι → Calls ι
  | .core caller =>
      match insertUrlRecordImpl readers faults calls.db (records caller) with
      | .error _ => calls
      | .ok (upsert, db) =>
          { db := db, upserts := Function.update calls.upserts caller (some upsert) }
  | .enrichment caller =>
      match calls.upserts caller with
      | none => calls
      | some upsert =>
          let (summary, db) := insertEnrichmentData write faults calls.db upsert.id
            (records caller) upsert.satelliteInsertFailures
          { db := db
            upserts := Function.update calls.upserts caller (some { upsert with
              partialFailuresInserted := summary.partialFailuresInserted
              satelliteInsertErrorsInserted := summary.satelliteInsertErrorsInserted }) }

/-- Transactions of calls in any order. A call may try a transaction again. -/
def Calls.attempts (readers : Readers) (write : WriteStrings) (records : ι → PersistedUrlRecord)
    (before : Database) (attempts : List (Faults × Step ι)) : Calls ι :=
  attempts.foldl (fun calls attempt => calls.attempt readers write records attempt.1 attempt.2)
    { db := before }

/-- What every attempt keeps. -/
structure Sound (calls : Calls ι) : Prop where
  linked : Linked calls.db
  row : ∀ caller upsert, calls.upserts caller = some upsert →
    calls.db.urlStatus.hasId upsert.id = true

/-- A row of `url_status` with its page, to which no call writes. -/
structure Bystander (before : Database) (row : Row (List Value)) (calls : Calls ι) : Prop where
  mem : row ∈ calls.db.urlStatus.rows
  page : calls.db.pageOf row = before.pageOf row
  others : ∀ caller upsert, calls.upserts caller = some upsert → row.id ≠ upsert.id

variable (readers write) in
/-- An attempt keeps the calls sound. -/
theorem Sound.attempt (h : Sound calls) (faults : Faults) (step : Step ι) :
    Sound (calls.attempt readers write records faults step) := by
  cases step with
  | core caller =>
      rw [Calls.attempt]
      match hok : insertUrlRecordImpl readers faults calls.db (records caller) with
      | .error _ => exact h
      | .ok (outcome, after) =>
          obtain ⟨hlinked, hid⟩ := linked_insertUrlRecordImpl h.linked hok
          refine ⟨hlinked, fun other upsert hupsert => ?_⟩
          simp only [Function.update_apply] at hupsert
          split at hupsert
          · cases hupsert
            exact hid
          · obtain ⟨status, inserted, hrow, -⟩ := insertUrlRecordImpl_ok hok
            have hkept : KeptByStatements outcome.id fun middle : Database =>
                middle.urlStatus.hasId upsert.id = true :=
              ⟨fun _ _ h => h, fun _ _ _ h => h, fun _ _ _ _ h => h⟩
            exact hkept.insertUrlRecordImpl hok fun status inserted hrow =>
              (upsertUrlStatusRow_hasId hrow).2 _ (h.row other upsert hupsert)
  | enrichment caller =>
      rw [Calls.attempt]
      cases hupsert : calls.upserts caller with
      | none => exact h
      | some upsert =>
          refine ⟨linked_insertEnrichmentData h.linked (h.row caller upsert hupsert),
            fun other found hfound => ?_⟩
          show (insertEnrichmentData write faults calls.db upsert.id (records caller)
            upsert.satelliteInsertFailures).2.urlStatus.hasId found.id = true
          rw [insertEnrichmentData_urlStatus]
          simp only [Function.update_apply] at hfound
          split at hfound
          · cases hfound
            exact h.row caller upsert hupsert
          · exact h.row other found hfound

variable (readers write) in
/-- An attempt leaves the row of a bystander. -/
theorem Bystander.attempt {row : Row (List Value)} (h : Bystander before row calls)
    (faults : Faults) (step : Step ι) (hapart : Apart (records step.caller).urlRecord row) :
    Bystander before row (calls.attempt readers write records faults step) := by
  cases step with
  | core caller =>
      rw [Calls.attempt]
      match hok : insertUrlRecordImpl readers faults calls.db (records caller) with
      | .error _ => exact h
      | .ok (outcome, after) =>
          obtain ⟨status, inserted, hupsert, -⟩ := insertUrlRecordImpl_ok hok
          have hne : row.id ≠ outcome.id := by
            rw [(upsertUrlStatusRow_id hupsert).1]
            exact hapart.idFor_ne h.mem
          have hmem : row ∈ after.urlStatus.rows.filter (·.id ≠ outcome.id) := by
            rw [otherPages_insertUrlRecordImpl hok]
            exact List.mem_filter.mpr ⟨h.mem, by simpa using hne⟩
          refine ⟨List.mem_of_mem_filter hmem, ?_, fun other upsert hupsert => ?_⟩
          · rw [← h.page]
            exact pageOf_congr (isolated_insertUrlRecordImpl hok) hne
          · simp only [Function.update_apply] at hupsert
            split at hupsert
            · cases hupsert
              exact hne
            · exact h.others other upsert hupsert
  | enrichment caller =>
      rw [Calls.attempt]
      split
      · exact h
      next upsert hupsert =>
        have hne := h.others caller upsert hupsert
        refine ⟨?_, ?_, fun other found hfound => ?_⟩
        · show row ∈ (insertEnrichmentData write faults calls.db upsert.id (records caller)
            upsert.satelliteInsertFailures).2.urlStatus.rows
          rw [insertEnrichmentData_urlStatus]
          exact h.mem
        · rw [← h.page]
          exact pageOf_congr (isolated_insertEnrichmentData faults write calls.db upsert.id _ _) hne
        · simp only [Function.update_apply] at hfound
          split at hfound
          · cases hfound
            exact hne
          · exact h.others other found hfound

/-- Whatever statements fail, and in whatever order the calls try their transactions, every row
belongs to a page, and a page whose key none of the calls takes stays as it is. -/
theorem attempts_isolated (readers : Readers) (write : WriteStrings)
    (records : ι → PersistedUrlRecord) (before : Database) (hlinked : Linked before)
    (attempts : List (Faults × Step ι)) :
    let after := (Calls.attempts readers write records before attempts).db
    Linked after ∧ ∀ row ∈ before.urlStatus.rows,
      (∀ attempt ∈ attempts, Apart (records attempt.2.caller).urlRecord row) →
        row ∈ after.urlStatus.rows ∧ after.pageOf row = before.pageOf row := by
  intro after
  constructor
  · suffices hsound : Sound (Calls.attempts readers write records before attempts) from
      hsound.linked
    refine List.foldlRecOn attempts _ ⟨hlinked, nofun⟩ fun calls h attempt _ => ?_
    exact h.attempt readers write attempt.1 attempt.2
  · intro row hrow hapart
    have hstart : Bystander before row ({ db := before } : Calls ι) := ⟨hrow, rfl, nofun⟩
    have hby : Bystander before row (Calls.attempts readers write records before attempts) :=
      List.foldlRecOn attempts _ hstart fun calls h attempt hmem =>
        h.attempt readers write attempt.1 attempt.2 (hapart attempt hmem)
    exact ⟨hby.mem, hby.page⟩

/-- A scan of another page whose cleanup fails. -/
theorem attempts_isolated_cleanup :
    ∃ row, (scannedOnce (technologyRecord "PHP")).urlStatus.rows = [row] ∧
      (Calls.attempts idleReaders (fun _ => "[]") twoPages (scannedOnce (technologyRecord "PHP"))
        [(deleteFails .nameservers, .core .second)]).db.pageOf row =
          (scannedOnce (technologyRecord "PHP")).pageOf row := by
  obtain ⟨outcome, hok⟩ : ∃ outcome, insertUrlRecordImpl idleReaders noFaults Database.empty
      (technologyRecord "PHP") = .ok (outcome, scannedOnce (technologyRecord "PHP")) := ⟨_, rfl⟩
  have hlinked := (linked_insertUrlRecordImpl linked_empty hok).1
  refine ⟨_, rfl, ((attempts_isolated idleReaders (fun _ => "[]") twoPages _ hlinked
    [(deleteFails .nameservers, .core .second)]).2 _ (List.mem_singleton_self _) ?_).2⟩
  intro attempt hattempt
  obtain rfl := List.mem_singleton.mp hattempt
  exact .inr (by decide)

end Runs

end DomainStatus.Storage
