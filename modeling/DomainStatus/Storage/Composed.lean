import DomainStatus.Storage.Schema

/-!
# Pages that come from records

Every page that a run leaves has the facts and core rows of the last core transaction for its key,
and the enrichments of the last enrichment transaction for it, or none. Read `composed_run` first,
and `run_fits` for what it says about the types of the columns.
-/

namespace DomainStatus.Storage

variable {readers : Readers} {write : WriteStrings}

namespace Page

/-- The facts and core rows of one record, with the enrichments of another one. -/
def compose (readers : Readers) (write : WriteStrings) (core : PersistedUrlRecord)
    (enriched : Option PersistedUrlRecord) : Page where
  fact := statusRow core.urlRecord
  rows table :=
    if table ∈ Satellite.core then coreRows readers core table
    else (enriched.map (enrichmentRows write · table)).getD []
  claims := (enriched.map recordClaims).getD []

variable {core last : PersistedUrlRecord} {enriched : Option PersistedUrlRecord}

/-- An enrichment transaction replaces the enrichment of a composed page. -/
theorem storeEnrichment_compose :
    storeEnrichment write last (compose readers write core enriched) =
      compose readers write core (some last) := by
  ext1
  · rfl
  · funext table
    by_cases htable : table ∈ Satellite.core <;> simp [storeEnrichment, compose, htable]
  · rfl

/-- A page that was not there before is composed of the last transactions. -/
theorem settled_none :
    settled readers write (some core) enriched none =
      some (compose readers write core enriched) := by
  cases enriched with
  | none => rfl
  | some last =>
      have hcore : storeCore readers core none = compose readers write core none := rfl
      rw [settled, hcore, storeEnrichment_compose]

end Page

section Runs

variable {ι : Type} {records : ι → PersistedUrlRecord} {keys : ι → Value × Value}
  {before : Database} {schedule : List (Step ι)} {calls : Calls ι} {pages : Pages}

/-- A row is there for a key, and its page comes from the last transactions for the key. -/
structure PageFrom (readers : Readers) (write : WriteStrings) (records : ι → PersistedUrlRecord)
    (keys : ι → Value × Value) (schedule : List (Step ι)) (db : Database) (row : Row (List Value))
    (key : Value × Value) (core : ι) : Prop where
  statusKey_eq : statusKey row.value = some key
  lastCore_eq : lastCore (ofKey keys key schedule) = some core
  /-- Without an enrichment transaction for the key the page has no enrichments. -/
  pageOf_eq : db.pageOf row = Page.compose readers write (records core)
    ((lastEnrichment (ofKey keys key schedule)).map records)

/-- All pages come from records. -/
def Composed (readers : Readers) (write : WriteStrings) (records : ι → PersistedUrlRecord)
    (keys : ι → Value × Value) (schedule : List (Step ι)) (db : Database) : Prop :=
  ∀ row ∈ db.urlStatus.rows, ∃ key core,
    PageFrom readers write records keys schedule db row key core

/-- The facts of a row are those of its call. -/
theorem PageFrom.value {db : Database} {row : Row (List Value)} {key : Value × Value} {core : ι}
    (h : PageFrom readers write records keys schedule db row key core) :
    row.value = statusRow (records core).urlRecord :=
  congrArg Page.fact h.pageOf_eq

/-- Every row is there for a call that has begun. -/
def Keyed (keys : ι → Value × Value) (schedule : List (Step ι)) (db : Database) : Prop :=
  ∀ row ∈ db.urlStatus.rows, ∃ caller, .core caller ∈ schedule ∧
    statusKey row.value = some (keys caller)

variable [DecidableEq ι]

/-- A row is found by its number. -/
theorem row_unique {table : StatusTable} {row found : Row (List Value)} {key : Value × Value}
    (hrow : row ∈ table.rows) (hfound : table.withKey key = [found]) (hid : row.id = found.id) :
    row = found :=
  List.inj_on_of_nodup_map table.nodup hrow
    (StatusTable.mem_withKey.mp (by rw [hfound]; exact List.mem_singleton_self found)).1 hid

variable (readers write)

/-- A core transaction keeps that each row comes from a call. -/
theorem Keyed.core
    (hkeys : ∀ caller, statusKey (statusRow (records caller).urlRecord) = some (keys caller))
    (hshows : Shows keys schedule calls pages) (h : Keyed keys schedule calls.db) (caller : ι) :
    Keyed keys (schedule ++ [.core caller])
      (calls.step readers write records (.core caller)).db := by
  obtain ⟨outcome, after, hok, -, ⟨found, hfound, hid⟩, -, -⟩ :=
    page_insertUrlRecordImpl readers hshows.linked (hkeys caller)
  have hstep : (calls.step readers write records (.core caller)).db = after := by
    rw [Calls.step, hok]
  rw [hstep]
  intro row hrow
  by_cases hsame : row.id = outcome.id
  · obtain rfl := row_unique hrow hfound (hsame.trans hid.symm)
    have hmem : row ∈ after.urlStatus.withKey (keys caller) := by
      rw [hfound]
      exact List.mem_singleton_self row
    exact ⟨caller, by simp, (StatusTable.mem_withKey.mp hmem).2⟩
  · have hmem : row ∈ calls.db.urlStatus.rows.filter (·.id ≠ outcome.id) := by
      rw [← otherPages_insertUrlRecordImpl hok]
      exact List.mem_filter.mpr ⟨hrow, by simpa using hsame⟩
    obtain ⟨other, hother, hkey⟩ := h row (List.mem_of_mem_filter hmem)
    exact ⟨other, List.mem_append_left _ hother, hkey⟩

/-- An enrichment transaction keeps that each row comes from a call. -/
theorem Keyed.enrichment (hshows : Shows keys schedule calls pages)
    (h : Keyed keys schedule calls.db) {caller : ι} (hcaller : .core caller ∈ schedule) :
    Keyed keys (schedule ++ [.enrichment caller])
      (calls.step readers write records (.enrichment caller)).db := by
  obtain ⟨upsert, hupsert⟩ := Option.isSome_iff_exists.mp (hshows.started caller hcaller)
  intro row hrow
  simp only [Calls.step, hupsert, insertEnrichmentData_urlStatus] at hrow
  obtain ⟨other, hother, hkey⟩ := h row hrow
  exact ⟨other, List.mem_append_left _ hother, hkey⟩

/-- Each row comes from a call for its key. -/
theorem keyed_run
    (hkeys : ∀ caller, statusKey (statusRow (records caller).urlRecord) = some (keys caller))
    (hschedule : Ordered schedule) :
    Keyed keys schedule (Calls.run readers write records Database.empty schedule).db := by
  induction schedule using List.reverseRecOn with
  | nil => exact nofun
  | append_singleton schedule step ih =>
      have hshows := shows_run readers write hkeys linked_empty hschedule.dropLast
      have hkeyed := ih hschedule.dropLast
      rw [Calls.run, List.foldl_append]
      cases step with
      | core caller => exact hkeyed.core readers write hkeys hshows caller
      | enrichment caller => exact hkeyed.enrichment readers write hshows hschedule.core_mem

/-- A page has the records of the last transactions for its key. -/
theorem page_run
    (hkeys : ∀ caller, statusKey (statusRow (records caller).urlRecord) = some (keys caller))
    (hschedule : Ordered schedule) {key : Value × Value} {core : ι}
    (hcore : lastCore (ofKey keys key schedule) = some core) :
    (Calls.run readers write records Database.empty schedule).db.page key =
      some (Page.compose readers write (records core)
        ((lastEnrichment (ofKey keys key schedule)).map records)) := by
  rw [(shows_run readers write hkeys linked_empty hschedule).pages, Pages.run_apply hschedule,
    hcore, Option.map_some]
  exact Page.settled_none

/-- After any run every page comes from records. -/
theorem composed_run
    (hkeys : ∀ caller, statusKey (statusRow (records caller).urlRecord) = some (keys caller))
    (hschedule : Ordered schedule) :
    Composed readers write records keys schedule
      (Calls.run readers write records Database.empty schedule).db := by
  intro row hrow
  obtain ⟨caller, hcaller, hkey⟩ := keyed_run readers write hkeys hschedule row hrow
  have hmem : Step.core caller ∈ ofKey keys (keys caller) schedule :=
    List.mem_filter.mpr ⟨hcaller, by simp [Step.caller]⟩
  obtain ⟨core, hcore⟩ := exists_lastCore hmem
  refine ⟨keys caller, core, hkey, hcore, ?_⟩
  have hwith := StatusTable.mem_withKey.mpr ⟨hrow, hkey⟩
  rcases withKey_cases (Calls.run readers write records Database.empty schedule).db (keys caller)
    with hnone | ⟨found, hfound⟩
  · rw [hnone] at hwith
    cases hwith
  · rw [hfound, List.mem_singleton] at hwith
    have hpage := page_run readers write hkeys hschedule hcore
    rw [page_eq hfound, Option.some.injEq] at hpage
    rw [hwith, hpage]

/-- Transactions for a key leave a row. -/
theorem exists_pageFrom
    (hkeys : ∀ caller, statusKey (statusRow (records caller).urlRecord) = some (keys caller))
    (hschedule : Ordered schedule) {key : Value × Value} {core : ι}
    (hcore : lastCore (ofKey keys key schedule) = some core) :
    ∃ row ∈ (Calls.run readers write records Database.empty schedule).db.urlStatus.rows,
      PageFrom readers write records keys schedule
        (Calls.run readers write records Database.empty schedule).db row key core := by
  have hpage := page_run readers write hkeys hschedule hcore
  rcases withKey_cases (Calls.run readers write records Database.empty schedule).db key
    with hnone | ⟨row, hrow⟩
  · rw [Database.page, hnone] at hpage
    cases hpage
  · have hmem : row ∈ (Calls.run readers write records Database.empty schedule).db.urlStatus.withKey
        key := by
      rw [hrow]
      exact List.mem_singleton_self row
    obtain ⟨hrows, hkey⟩ := StatusTable.mem_withKey.mp hmem
    rw [page_eq hrow, Option.some.injEq] at hpage
    exact ⟨row, hrows, hkey, hcore, hpage⟩

/-! ## Types of columns -/

variable {readers write}

/-- Every value in the tables has the type of its column. -/
structure WellTyped (db : Database) : Prop where
  facts : ∀ row ∈ db.urlStatus.rows, Fits statusSchema row.value
  rows : ∀ table, ∀ row ∈ (db.satellites table).rows, Fits table.schema row.value
  claims : ∀ claim ∈ db.jwtClaims.rows, Fits jwtSchema claim.value

/-- The rows of a composed page fit the schema. -/
theorem Page.fits_compose {core : PersistedUrlRecord} {enriched : Option PersistedUrlRecord}
    {table : Satellite} {row : List Value}
    (h : row ∈ (Page.compose readers write core enriched).rows table) : Fits table.schema row := by
  by_cases htable : table ∈ Satellite.core
  · simp only [Page.compose, htable, if_true] at h
    exact fits_coreRows h
  · simp only [Page.compose, htable, if_false] at h
    cases enriched with
    | none => cases h
    | some last => exact fits_enrichmentRows h

/-- The claims of a composed page fit the schema. -/
theorem Page.fits_claims {core : PersistedUrlRecord} {enriched : Option PersistedUrlRecord}
    {claim : List Value × List Value}
    (h : claim ∈ (Page.compose readers write core enriched).claims) : Fits jwtSchema claim.2 := by
  cases enriched with
  | none => cases h
  | some last => exact fits_recordClaims h

/-- A row that belongs to a page is one of the rows of the page. -/
theorem exists_page_row {db : Database} (hlinked : Linked db) {table : Satellite}
    {row : Row (List Value)} (hrow : row ∈ (db.satellites table).rows) :
    ∃ status ∈ db.urlStatus.rows, status.id = row.parent ∧
      row.value ∈ (db.pageOf status).rows table := by
  obtain ⟨status, hstatus, hid⟩ := List.any_eq_true.mp (hlinked table row hrow)
  rw [decide_eq_true_eq] at hid
  refine ⟨status, hstatus, hid, List.mem_map_of_mem (List.mem_filter.mpr ⟨hrow, ?_⟩)⟩
  exact decide_eq_true hid.symm

omit [DecidableEq ι] in
/-- A composed database is well typed. -/
theorem wellTyped_of_composed {db : Database} (hlinked : Linked db)
    (h : Composed readers write records keys schedule db) : WellTyped db := by
  refine ⟨fun row hrow => ?_, fun table row hrow => ?_, fun claim hclaim => ?_⟩
  · obtain ⟨key, core, hfrom⟩ := h row hrow
    rw [hfrom.value]
    exact fits_statusRow _
  · obtain ⟨status, hstatus, -, hvalue⟩ := exists_page_row hlinked hrow
    obtain ⟨key, core, hfrom⟩ := h status hstatus
    rw [hfrom.pageOf_eq] at hvalue
    exact Page.fits_compose hvalue
  · obtain ⟨secret, hsecret, hid⟩ := db.claim_parent claim hclaim
    obtain ⟨status, hstatus, hparent, -⟩ := exists_page_row hlinked hsecret
    obtain ⟨key, core, hfrom⟩ := h status hstatus
    -- the claim is joined to its secret, which belongs to the page
    have hkey : db.secretKeys status.id claim.parent = some (secretKey secret.value) :=
      Table.keyOf_eq_some.mpr ⟨secret, hsecret, hid, hparent.symm, rfl⟩
    have hmem : (secretKey secret.value, claim.value) ∈ (db.pageOf status).claims :=
      List.mem_filterMap.mpr ⟨claim, hclaim, by rw [hkey]; rfl⟩
    rw [hfrom.pageOf_eq] at hmem
    exact Page.fits_claims hmem

end Runs

end DomainStatus.Storage
