import DomainStatus.Storage.Replace

/-!
# Overlapping rescans

Calls of `insert_persisted_url_record` for one key. A call runs its two transactions one after the
other, and the transactions of different calls may come in any order. Read `Tracked` first: the fact
row and the core rows are those of the call whose core transaction came last, and the enrichments
those of the call whose enrichment transaction came last. By `rescans_agree_iff` these are two
different calls exactly when the calls overlap in one of two ways.
-/

namespace DomainStatus.Storage

variable {ι : Type}

/-- The transactions of a call. -/
inductive Step (ι : Type) where
  | core (caller : ι)
  | enrichment (caller : ι)
  deriving DecidableEq

namespace Step

/-- The call that makes the step. -/
def caller : Step ι → ι
  | core caller | enrichment caller => caller

/-- The call of a core transaction. -/
def core? : Step ι → Option ι
  | core caller => some caller
  | enrichment _ => none

/-- The call of an enrichment transaction. -/
def enrichment? : Step ι → Option ι
  | core _ => none
  | enrichment caller => some caller

end Step

/-! ## Schedules -/

/-- The call whose core transaction is the first one. -/
def firstCore (schedule : List (Step ι)) : Option ι :=
  (schedule.filterMap Step.core?).head?

/-- The call whose core transaction comes last. -/
def lastCore (schedule : List (Step ι)) : Option ι :=
  (schedule.filterMap Step.core?).getLast?

/-- The call whose enrichment transaction comes last. -/
def lastEnrichment (schedule : List (Step ι)) : Option ι :=
  (schedule.filterMap Step.enrichment?).getLast?

section Orders

variable {schedule : List (Step ι)} {caller : ι}

@[simp] theorem lastCore_core : lastCore (schedule ++ [.core caller]) = some caller := by
  simp [lastCore, List.filterMap_append, Step.core?]

@[simp] theorem lastCore_enrichment :
    lastCore (schedule ++ [.enrichment caller]) = lastCore schedule := by
  simp [lastCore, List.filterMap_append, Step.core?]

@[simp] theorem lastEnrichment_core :
    lastEnrichment (schedule ++ [.core caller]) = lastEnrichment schedule := by
  simp [lastEnrichment, List.filterMap_append, Step.enrichment?]

@[simp] theorem lastEnrichment_enrichment :
    lastEnrichment (schedule ++ [.enrichment caller]) = some caller := by
  simp [lastEnrichment, List.filterMap_append, Step.enrichment?]

@[simp] theorem firstCore_core :
    firstCore (schedule ++ [.core caller]) = (firstCore schedule).or (some caller) := by
  simp [firstCore, List.filterMap_append, Step.core?, List.head?_append]

@[simp] theorem firstCore_enrichment :
    firstCore (schedule ++ [.enrichment caller]) = firstCore schedule := by
  simp [firstCore, List.filterMap_append, Step.core?]

/-- No core transaction is the last one if there is none. -/
theorem lastCore_eq_none : lastCore schedule = none ↔ ∀ caller, .core caller ∉ schedule := by
  rw [lastCore, List.getLast?_eq_none_iff, List.filterMap_eq_nil_iff]
  constructor
  · intro h caller hmem
    cases h _ hmem
  · intro h step hstep
    cases step with
    | core caller => exact absurd hstep (h caller)
    | enrichment caller => rfl

/-- The first core transaction is one of the schedule. -/
theorem core_mem_of_firstCore (h : firstCore schedule = some caller) : .core caller ∈ schedule := by
  obtain ⟨step, hstep, hcaller⟩ := List.mem_filterMap.mp (List.mem_of_head? h)
  cases step with
  | core other =>
      cases hcaller
      exact hstep
  | enrichment other => cases hcaller

/-- With a core transaction there is a last one. -/
theorem exists_lastCore (h : .core caller ∈ schedule) : ∃ last, lastCore schedule = some last := by
  rw [← Option.ne_none_iff_exists']
  exact fun hnone => lastCore_eq_none.mp hnone caller h

/-- There is a first core transaction if there is a last one. -/
theorem firstCore_eq_none : firstCore schedule = none ↔ lastCore schedule = none := by
  rw [firstCore, lastCore, List.head?_eq_none_iff, List.getLast?_eq_none_iff]

/-- A call that has not begun yet is the first one if there is no other. -/
theorem firstCore_core_eq (h : .core caller ∉ schedule) :
    firstCore (schedule ++ [.core caller]) = some caller ↔ lastCore schedule = none := by
  rw [firstCore_core, ← firstCore_eq_none]
  cases hfirst : firstCore schedule with
  | none => simp
  | some first =>
      have hne : first ≠ caller := by
        rintro rfl
        exact h (core_mem_of_firstCore hfirst)
      simp [hne]

/-- The first call stays the first one. -/
theorem firstCore_core_of_mem {other : ι} (h : .core other ∈ schedule) :
    firstCore (schedule ++ [.core caller]) = firstCore schedule := by
  rw [firstCore_core]
  cases hfirst : firstCore schedule with
  | none => exact absurd h (lastCore_eq_none.mp (firstCore_eq_none.mp hfirst) other)
  | some first => rfl

end Orders

variable [DecidableEq ι]

/-- Every call runs both of its transactions, the core transaction first. -/
def Interleaving (schedule : List (Step ι)) : Prop :=
  ∀ caller, schedule.filter (·.caller = caller) = [.core caller, .enrichment caller]

/-- No call is ahead of itself. -/
def Ordered (schedule : List (Step ι)) : Prop :=
  ∀ caller, schedule.filter (·.caller = caller) <+: [.core caller, .enrichment caller]

section Schedules

variable {schedule : List (Step ι)} {caller : ι}

/-- A schedule in order is in order up to its last step. -/
theorem Ordered.dropLast {step : Step ι} (h : Ordered (schedule ++ [step])) : Ordered schedule := by
  intro caller
  refine List.IsPrefix.trans ?_ (h caller)
  rw [List.filter_append]
  exact List.prefix_append _ _

/-- The transactions of a call before its next one. -/
theorem Ordered.before {step : Step ι} (h : Ordered (schedule ++ [step])) :
    schedule.filter (·.caller = step.caller) ++ [step] <+:
      [.core step.caller, .enrichment step.caller] := by
  have hprefix := h step.caller
  rwa [List.filter_append, List.filter_cons_of_pos (by simp)] at hprefix

/-- A core transaction is the first of its call. -/
theorem Ordered.core_not_mem (h : Ordered (schedule ++ [.core caller])) :
    .core caller ∉ schedule := by
  intro hmem
  have hfilter : .core caller ∈ schedule.filter (·.caller = caller) :=
    List.mem_filter.mpr ⟨hmem, by simp [Step.caller]⟩
  have hbefore : schedule.filter (·.caller = caller) ++ [.core caller] <+: _ := h.before
  cases hrows : schedule.filter (·.caller = caller) with
  | nil =>
      rw [hrows] at hfilter
      cases hfilter
  | cons first rest =>
      rw [hrows, List.cons_append, List.cons_prefix_cons] at hbefore
      have hlast := hbefore.2.subset (List.mem_append_right _ (List.mem_singleton_self _))
      cases List.mem_singleton.mp hlast

/-- An enrichment transaction comes after the core transaction of its call. -/
theorem Ordered.core_mem (h : Ordered (schedule ++ [.enrichment caller])) :
    .core caller ∈ schedule := by
  have hbefore : schedule.filter (·.caller = caller) ++ [.enrichment caller] <+: _ := h.before
  cases hrows : schedule.filter (·.caller = caller) with
  | nil =>
      rw [hrows, List.nil_append, List.cons_prefix_cons] at hbefore
      cases hbefore.1
  | cons first rest =>
      rw [hrows, List.cons_append, List.cons_prefix_cons] at hbefore
      refine List.mem_of_mem_filter (p := fun step => step.caller = caller) ?_
      rw [hrows, hbefore.1]
      exact List.mem_cons_self

end Schedules

/-! ## Calls -/

/-- The database, and what the core transactions of the calls returned. -/
structure Calls (ι : Type) where
  db : Database
  upserts : ι → Option UrlUpsertOutcome := fun _ => none

/-- `insert_persisted_url_record`, for one call on its own. -/
def insertPersistedUrlRecord (readers : Readers) (write : WriteStrings) (faults : Faults)
    (db : Database) (record : PersistedUrlRecord) : Except String (UrlUpsertOutcome × Database) :=
  match insertUrlRecordImpl readers faults db record with
  | .error message => .error message
  | .ok (upsert, db) =>
      let (summary, db) :=
        insertEnrichmentData write faults db upsert.id record upsert.satelliteInsertFailures
      .ok ({ upsert with
        partialFailuresInserted := summary.partialFailuresInserted
        satelliteInsertErrorsInserted := summary.satelliteInsertErrorsInserted }, db)

/-- A call on its own leaves the enrichments of its record. -/
theorem insertPersistedUrlRecord_enrichments (readers : Readers) (write : WriteStrings)
    {record : PersistedUrlRecord} {key : Value × Value}
    (hkey : statusKey (statusRow record.urlRecord) = some key) (db : Database) :
    ∃ outcome after, insertPersistedUrlRecord readers write noFaults db record =
        .ok (outcome, after) ∧ EnrichmentFrom write record outcome.id after := by
  obtain ⟨upsert, middle, hcore, -, hfailures, -⟩ := insertUrlRecordImpl_replaces readers hkey db
  obtain ⟨summary, after, htxn, hfrom, -⟩ :=
    insertEnrichmentTxn_replaces upsert.id write record middle
  refine ⟨{ upsert with
    partialFailuresInserted := summary.partialFailuresInserted
    satelliteInsertErrorsInserted := summary.satelliteInsertErrorsInserted }, after, ?_, hfrom⟩
  simp only [insertPersistedUrlRecord, hcore, hfailures, insertEnrichmentData, htxn]

/-- One transaction of a call, in which no statement fails. -/
def Calls.step (readers : Readers) (write : WriteStrings) (records : ι → PersistedUrlRecord)
    (calls : Calls ι) : Step ι → Calls ι
  | .core caller =>
      match insertUrlRecordImpl readers noFaults calls.db (records caller) with
      | .error _ => calls
      | .ok (upsert, db) =>
          { db := db, upserts := Function.update calls.upserts caller (some upsert) }
  | .enrichment caller =>
      match calls.upserts caller with
      | none => calls
      | some upsert =>
          let (summary, db) := insertEnrichmentData write noFaults calls.db upsert.id
            (records caller) upsert.satelliteInsertFailures
          { db := db
            upserts := Function.update calls.upserts caller (some { upsert with
              partialFailuresInserted := summary.partialFailuresInserted
              satelliteInsertErrorsInserted := summary.satelliteInsertErrorsInserted }) }

/-- The transactions of a schedule, one after the other. -/
def Calls.run (readers : Readers) (write : WriteStrings) (records : ι → PersistedUrlRecord)
    (before : Database) (schedule : List (Step ι)) : Calls ι :=
  schedule.foldl (Calls.step readers write records) { db := before }

/-- A call on its own is the core transaction followed by the enrichment transaction. -/
theorem run_call {readers : Readers} {write : WriteStrings} {records : ι → PersistedUrlRecord}
    {before after : Database} {caller : ι} {upsert : UrlUpsertOutcome}
    (h : insertPersistedUrlRecord readers write noFaults before (records caller) =
      .ok (upsert, after)) :
    (Calls.run readers write records before [.core caller, .enrichment caller]).db = after ∧
      (Calls.run readers write records before [.core caller, .enrichment caller]).upserts caller =
        some upsert := by
  unfold insertPersistedUrlRecord at h
  cases hcore : insertUrlRecordImpl readers noFaults before (records caller) with
  | error message =>
      rw [hcore] at h
      cases h
  | ok finished =>
      simp only [hcore, Except.ok.injEq, Prod.mk.injEq] at h
      obtain ⟨rfl, rfl⟩ := h
      simp [Calls.run, Calls.step, hcore]

/-! ## What a run leaves behind -/

section Tracked

variable {readers : Readers} {write : WriteStrings} {records : ι → PersistedUrlRecord}
  {key : Value × Value} {before : Database} {schedule : List (Step ι)} {calls : Calls ι}

/-- The state of the calls after a part of a schedule. -/
structure Tracked (readers : Readers) (write : WriteStrings) (records : ι → PersistedUrlRecord)
    (key : Value × Value) (before : Database) (schedule : List (Step ι)) (calls : Calls ι) :
    Prop where
  unstarted : lastCore schedule = none → calls.db = before ∧ lastEnrichment schedule = none
  started : ∀ caller, (calls.upserts caller).isSome = true ↔ .core caller ∈ schedule
  upserts : ∀ caller upsert, calls.upserts caller = some upsert →
    upsert.satelliteInsertFailures = [] ∧
      (upsert.inserted = true ↔
        before.urlStatus.withKey key = [] ∧ firstCore schedule = some caller)
  stored : ∀ last, lastCore schedule = some last → ∃ id,
    CoreFrom readers (records last) key id calls.db ∧
      (∀ caller upsert, calls.upserts caller = some upsert → upsert.id = id) ∧
      ∀ enriched, lastEnrichment schedule = some enriched →
        EnrichmentFrom write (records enriched) id calls.db

/-- The enrichment depends on its own tables only. -/
theorem EnrichmentFrom.congr {record : PersistedUrlRecord} {id : ℕ} {db after : Database}
    (h : EnrichmentFrom write record id db)
    (hrows : ∀ table ∉ Satellite.core, after.satellites table = db.satellites table)
    (hclaims : after.jwtClaims = db.jwtClaims) : EnrichmentFrom write record id after := by
  refine ⟨fun table htable => ?_, ?_⟩
  · rw [hrows table ((Satellite.mem_enrichment_iff table).mp htable), h.rows table htable]
  · rw [← h.claims, Database.claimsOf, Database.claimsOf, hclaims]
    congr 1
    funext secretId
    rw [Database.secretKeys, Database.secretKeys, hrows _ (by decide)]

/-- A core transaction makes the fact row and the core rows those of its call. -/
theorem Tracked.core {caller : ι}
    (hkey : ∀ caller, statusKey (statusRow (records caller).urlRecord) = some key)
    (horder : Ordered (schedule ++ [.core caller]))
    (h : Tracked readers write records key before schedule calls) :
    Tracked readers write records key before (schedule ++ [.core caller])
      (calls.step readers write records (.core caller)) := by
  obtain ⟨upsert, after, hrun, hcore, hnone, hinserted, hid, hkept, hclaims⟩ :=
    insertUrlRecordImpl_replaces readers (hkey caller) calls.db
  have hstep : calls.step readers write records (.core caller) =
      { db := after, upserts := Function.update calls.upserts caller (some upsert) } := by
    rw [Calls.step, hrun]
  have hfresh : .core caller ∉ schedule := horder.core_not_mem
  -- All calls write to the same row, and its enrichments stay.
  have hstored : ∀ last, lastCore schedule = some last →
      calls.db.urlStatus.withKey key ≠ [] ∧
        (∀ other found, calls.upserts other = some found → found.id = upsert.id) ∧
        ∀ enriched, lastEnrichment schedule = some enriched →
          EnrichmentFrom write (records enriched) upsert.id after := by
    intro last hlast
    obtain ⟨id, hlastCore, hids, henriched⟩ := h.stored last hlast
    obtain ⟨row, hrow, hrowId, -⟩ := hlastCore.status
    have hsame : id = upsert.id := hrowId ▸ hid row hrow
    subst hsame
    exact ⟨by simp [hrow], hids, fun enriched h => (henriched enriched h).congr hkept hclaims⟩
  have hbegun : ∀ other found, calls.upserts other = some found → .core other ∈ schedule :=
    fun other found hfound => (h.started other).mp (by rw [hfound]; rfl)
  rw [hstep]
  refine ⟨fun hlast => ?_, fun other => ?_, fun other found hfound => ?_, fun last hlast => ?_⟩
  · rw [lastCore_core] at hlast
    cases hlast
  · by_cases hother : other = caller
    · subst hother
      simp
    · simp [h.started other, hother]
  · simp only [Function.update_apply] at hfound
    split at hfound
    case isTrue hother =>
      subst hother
      cases hfound
      rw [firstCore_core_eq hfresh]
      refine ⟨hnone, hinserted.trans ?_⟩
      cases hlast : lastCore schedule with
      | none => simp [(h.unstarted hlast).1]
      | some last => simp [(hstored last hlast).1]
    case isFalse =>
      rw [firstCore_core_of_mem (hbegun other found hfound)]
      exact h.upserts other found hfound
  · rw [lastCore_core, Option.some.injEq] at hlast
    subst hlast
    refine ⟨upsert.id, hcore, fun other found hfound => ?_, fun enriched henriched => ?_⟩
    · simp only [Function.update_apply] at hfound
      split at hfound
      · cases hfound
        rfl
      · obtain ⟨last, hlast⟩ := exists_lastCore (hbegun other found hfound)
        exact (hstored last hlast).2.1 other found hfound
    · rw [lastEnrichment_core] at henriched
      cases hlast : lastCore schedule with
      | none =>
          rw [(h.unstarted hlast).2] at henriched
          cases henriched
      | some last => exact (hstored last hlast).2.2 enriched henriched

/-- An enrichment transaction makes the enrichments those of its call. -/
theorem Tracked.enrichment {caller : ι} (horder : Ordered (schedule ++ [.enrichment caller]))
    (h : Tracked readers write records key before schedule calls) :
    Tracked readers write records key before (schedule ++ [.enrichment caller])
      (calls.step readers write records (.enrichment caller)) := by
  have hmem : .core caller ∈ schedule := horder.core_mem
  obtain ⟨upsert, hupsert⟩ := Option.isSome_iff_exists.mp ((h.started caller).mpr hmem)
  obtain ⟨summary, after, hrun, henriched, hstatus, hkept⟩ :=
    insertEnrichmentTxn_replaces upsert.id write (records caller) calls.db
  have hstep : calls.step readers write records (.enrichment caller) =
      { db := after
        upserts := Function.update calls.upserts caller (some { upsert with
          partialFailuresInserted := summary.partialFailuresInserted
          satelliteInsertErrorsInserted := summary.satelliteInsertErrorsInserted }) } := by
    simp only [Calls.step, hupsert, insertEnrichmentData, (h.upserts caller upsert hupsert).1, hrun]
  -- Numbers and flags of the upserts do not change.
  have hold : ∀ other found, Function.update calls.upserts caller (some { upsert with
      partialFailuresInserted := summary.partialFailuresInserted
      satelliteInsertErrorsInserted := summary.satelliteInsertErrorsInserted }) other =
        some found → ∃ old, calls.upserts other = some old ∧ found.id = old.id ∧
          found.inserted = old.inserted ∧
          found.satelliteInsertFailures = old.satelliteInsertFailures := by
    intro other found hfound
    rw [Function.update_apply] at hfound
    split at hfound
    case isTrue hother =>
      subst hother
      cases hfound
      exact ⟨upsert, hupsert, rfl, rfl, rfl⟩
    case isFalse => exact ⟨found, hfound, rfl, rfl, rfl⟩
  rw [hstep]
  refine ⟨fun hlast => ?_, fun other => ?_, fun other found hfound => ?_, fun last hlast => ?_⟩
  · rw [lastCore_enrichment] at hlast
    exact absurd hmem (lastCore_eq_none.mp hlast caller)
  · by_cases hother : other = caller
    · subst hother
      simp [hmem]
    · simp [h.started other, hother]
  · obtain ⟨old, holdUpsert, -, hinserted, hfailures⟩ := hold other found hfound
    rw [firstCore_enrichment, hinserted, hfailures]
    exact h.upserts other old holdUpsert
  · rw [lastCore_enrichment] at hlast
    obtain ⟨id, hcore, hids, -⟩ := h.stored last hlast
    have hsame := hids caller upsert hupsert
    refine ⟨id, ⟨?_, fun table htable => ?_⟩, fun other found hfound => ?_,
      fun enriched hlast => ?_⟩
    · rw [hstatus]
      exact hcore.status
    · rw [hkept table htable, hcore.rows table htable]
    · obtain ⟨old, holdUpsert, hid, -⟩ := hold other found hfound
      rw [hid, hids other old holdUpsert]
    · rw [lastEnrichment_enrichment, Option.some.injEq] at hlast
      rw [← hlast, ← hsame]
      exact henriched

variable (readers write before) in
/-- Every run is tracked. -/
theorem tracked_run
    (hkey : ∀ caller, statusKey (statusRow (records caller).urlRecord) = some key)
    (horder : Ordered schedule) :
    Tracked readers write records key before schedule
      (Calls.run readers write records before schedule) := by
  induction schedule using List.reverseRecOn with
  | nil => exact ⟨fun _ => ⟨rfl, rfl⟩, by simp [Calls.run], nofun, nofun⟩
  | append_singleton schedule step ih =>
      have hbefore := ih horder.dropLast
      rw [Calls.run, List.foldl_append] at *
      cases step with
      | core caller => exact hbefore.core hkey horder
      | enrichment caller => exact hbefore.enrichment horder

end Tracked

/-! ## Agreement -/

/-- The rows of a page come from a record. The order of the rows in a table does not matter. -/
structure StoredFrom (readers : Readers) (write : WriteStrings) (record : PersistedUrlRecord)
    (status : Row (List Value)) (db : Database) : Prop where
  fact : status.value = statusRow record.urlRecord
  core : ∀ table ∈ Satellite.core,
    ((db.satellites table).valuesOf status.id).Perm (coreRows readers record table)
  enrichment : ∀ table ∈ Satellite.enrichment,
    ((db.satellites table).valuesOf status.id).Perm (enrichmentRows write record table)
  claims : (db.claimsOf status.id).Perm (recordClaims record)

/-- There is one row for the key, one call has inserted it if it is a new one, and all that belongs
to it comes from one record. -/
structure RescansAgree (readers : Readers) (write : WriteStrings)
    (records : ι → PersistedUrlRecord) (key : Value × Value) (before : Database)
    (calls : Calls ι) : Prop where
  row : (calls.db.urlStatus.withKey key).length = 1
  inserted : before.urlStatus.withKey key = [] →
    ∃! caller, (calls.upserts caller).map UrlUpsertOutcome.inserted = some true
  stored : ∀ status ∈ calls.db.urlStatus.withKey key,
    ∃ caller, StoredFrom readers write (records caller) status calls.db

/-- Two records have the same fact row and core rows. -/
def SameCore (readers : Readers) (left right : PersistedUrlRecord) : Prop :=
  statusRow left.urlRecord = statusRow right.urlRecord ∧
    ∀ table ∈ Satellite.core, (coreRows readers left table).Perm (coreRows readers right table)

/-- Two records have the same enrichments. -/
def SameEnrichment (write : WriteStrings) (left right : PersistedUrlRecord) : Prop :=
  (∀ table ∈ Satellite.enrichment,
    (enrichmentRows write left table).Perm (enrichmentRows write right table)) ∧
      (recordClaims left).Perm (recordClaims right)

/-- The rows of a page with the core rows of one record and the enrichments of another come from a
record that has both. -/
theorem storedFrom_iff {readers : Readers} {write : WriteStrings} {key : Value × Value}
    {core enriched : PersistedUrlRecord} {status : Row (List Value)} {db : Database}
    (hstatus : db.urlStatus.withKey key = [status])
    (hcore : CoreFrom readers core key status.id db)
    (henriched : EnrichmentFrom write enriched status.id db) (record : PersistedUrlRecord) :
    StoredFrom readers write record status db ↔
      SameCore readers core record ∧ SameEnrichment write enriched record := by
  have hvalue : status.value = statusRow core.urlRecord := by
    obtain ⟨row, hrow, -, hvalue⟩ := hcore.status
    rw [hstatus, List.singleton_inj] at hrow
    rw [hrow, hvalue]
  constructor
  · intro h
    obtain ⟨hrow, hrows, henrichments, hclaims⟩ := h
    refine ⟨⟨hvalue ▸ hrow, fun table htable => ?_⟩, fun table htable => ?_, ?_⟩
    · exact hcore.rows table htable ▸ hrows table htable
    · exact henriched.rows table htable ▸ henrichments table htable
    · exact henriched.claims ▸ hclaims
  · intro h
    obtain ⟨⟨hrow, hrows⟩, henrichments, hclaims⟩ := h
    refine ⟨hvalue.trans hrow, fun table htable => ?_, fun table htable => ?_, ?_⟩
    · rw [hcore.rows table htable]
      exact hrows table htable
    · rw [henriched.rows table htable]
      exact henrichments table htable
    · rw [henriched.claims]
      exact hclaims

section Agreement

variable {readers : Readers} {write : WriteStrings} {records : ι → PersistedUrlRecord}
  {key : Value × Value} {before : Database} {schedule : List (Step ι)} {core enriched : ι}

/-- The transactions of each caller are in order. -/
theorem Interleaving.ordered (h : Interleaving schedule) : Ordered schedule := by
  intro caller
  rw [h caller]

/-- Every caller has both transactions. -/
theorem Interleaving.mem (h : Interleaving schedule) (caller : ι) :
    .core caller ∈ schedule ∧ .enrichment caller ∈ schedule := by
  have hcore : .core caller ∈ schedule.filter (·.caller = caller) := by simp [h caller]
  have henrichment : .enrichment caller ∈ schedule.filter (·.caller = caller) := by simp [h caller]
  exact ⟨List.mem_of_mem_filter hcore, List.mem_of_mem_filter henrichment⟩

/-- With a caller there is a last enrichment. -/
theorem Interleaving.exists_lastEnrichment (h : Interleaving schedule) (caller : ι) :
    ∃ last, lastEnrichment schedule = some last := by
  rw [← Option.ne_none_iff_exists', lastEnrichment, ne_eq, List.getLast?_eq_none_iff]
  have hmem : caller ∈ schedule.filterMap Step.enrichment? :=
    List.mem_filterMap.mpr ⟨_, (h.mem caller).2, rfl⟩
  exact List.ne_nil_of_mem hmem

/-- A complete run agrees exactly when one record has the core rows of the last core transaction and
the enrichments of the last enrichment transaction. -/
theorem rescansAgree_iff
    (hkey : ∀ caller, statusKey (statusRow (records caller).urlRecord) = some key)
    (hschedule : Interleaving schedule) (hcore : lastCore schedule = some core)
    (henriched : lastEnrichment schedule = some enriched) :
    RescansAgree readers write records key before
        (Calls.run readers write records before schedule) ↔
      ∃ caller, SameCore readers (records core) (records caller) ∧
        SameEnrichment write (records enriched) (records caller) := by
  obtain ⟨-, hstarted, hupserts, hstored⟩ :=
    tracked_run readers write before hkey hschedule.ordered
  obtain ⟨id, hcoreFrom, -, henrichmentFrom⟩ := hstored core hcore
  obtain ⟨status, hstatus, rfl, -⟩ := hcoreFrom.status
  have hiff := storedFrom_iff hstatus hcoreFrom (henrichmentFrom enriched henriched)
  constructor
  · intro h
    obtain ⟨-, -, hsame⟩ := h
    obtain ⟨caller, hcaller⟩ := hsame status (by simp [hstatus])
    exact ⟨caller, (hiff _).mp hcaller⟩
  · intro h
    obtain ⟨caller, hcaller⟩ := h
    refine ⟨by rw [hstatus]; rfl, fun hfree => ?_, fun row hrow => ⟨caller, ?_⟩⟩
    · -- The row is inserted by the call whose core transaction came first.
      obtain ⟨first, hfirst⟩ : ∃ first, firstCore schedule = some first := by
        rw [← Option.ne_none_iff_exists', ne_eq, firstCore_eq_none, hcore]
        exact Option.some_ne_none core
      refine ⟨first, ?_, fun other hother => ?_⟩
      · obtain ⟨upsert, hupsert⟩ :=
          Option.isSome_iff_exists.mp ((hstarted first).mpr (hschedule.mem first).1)
        have hinserted := (hupserts first upsert hupsert).2.mpr ⟨hfree, hfirst⟩
        simp [hupsert, hinserted]
      · obtain ⟨upsert, hupsert, hinserted⟩ := Option.map_eq_some_iff.mp hother
        have hother := ((hupserts other upsert hupsert).2.mp hinserted).2
        rw [hfirst, Option.some.injEq] at hother
        exact hother.symm
    · rw [hstatus, List.mem_singleton] at hrow
      rw [hrow]
      exact (hiff _).mpr hcaller

end Agreement

/-- Two calls. -/
inductive Caller where
  | first | second
  deriving DecidableEq

/-- The records of two calls. -/
def pair (first second : PersistedUrlRecord) : Caller → PersistedUrlRecord
  | .first => first
  | .second => second

/-- Having the same core is symmetric. -/
theorem SameCore.symm {readers : Readers} {left right : PersistedUrlRecord}
    (h : SameCore readers left right) : SameCore readers right left :=
  ⟨h.1.symm, fun table htable => (h.2 table htable).symm⟩

/-- Having the same enrichment is symmetric. -/
theorem SameEnrichment.symm {write : WriteStrings} {left right : PersistedUrlRecord}
    (h : SameEnrichment write left right) : SameEnrichment write right left :=
  ⟨fun table htable => (h.1 table htable).symm, h.2.symm⟩

/-- A record has its own core. -/
theorem SameCore.refl (readers : Readers) (record : PersistedUrlRecord) :
    SameCore readers record record :=
  ⟨rfl, fun _ _ => List.Perm.refl _⟩

/-- A record has its own enrichment. -/
theorem SameEnrichment.refl (write : WriteStrings) (record : PersistedUrlRecord) :
    SameEnrichment write record record :=
  ⟨fun _ _ => List.Perm.refl _, List.Perm.refl _⟩

/-- The records with the core rows of one call and the enrichments of another. -/
theorem exists_same_iff {readers : Readers} {write : WriteStrings}
    {first second : PersistedUrlRecord} (core enriched : Caller) :
    (∃ caller, SameCore readers (pair first second core) (pair first second caller) ∧
        SameEnrichment write (pair first second enriched) (pair first second caller)) ↔
      core = enriched ∨ SameCore readers first second ∨ SameEnrichment write first second := by
  constructor
  · intro h
    obtain ⟨caller, hcore, henrichment⟩ := h
    cases core <;> cases enriched <;> cases caller <;>
      simp only [pair, reduceCtorEq, false_or, true_or] at hcore henrichment ⊢
    · exact .inr henrichment.symm
    · exact .inl hcore
    · exact .inl hcore.symm
    · exact .inr henrichment
  · intro h
    rcases h with rfl | hcore | henrichment
    · exact ⟨core, SameCore.refl _ _, SameEnrichment.refl _ _⟩
    · refine ⟨enriched, ?_, SameEnrichment.refl _ _⟩
      cases core <;> cases enriched
      · exact SameCore.refl _ _
      · exact hcore
      · exact hcore.symm
      · exact SameCore.refl _ _
    · refine ⟨core, SameCore.refl _ _, ?_⟩
      cases core <;> cases enriched
      · exact SameEnrichment.refl _ _
      · exact henrichment.symm
      · exact henrichment
      · exact SameEnrichment.refl _ _

/-- Two overlapping calls for one key agree exactly when the one whose core transaction comes last
is the one whose enrichment transaction comes last, unless one of the transactions writes the same
for both records. -/
theorem rescans_agree_iff (readers : Readers) (write : WriteStrings) (before : Database)
    (first second : PersistedUrlRecord) (runId domain : String)
    (hfirst : first.urlRecord.runId = some runId ∧ first.urlRecord.initialDomain = domain)
    (hsecond : second.urlRecord.runId = some runId ∧ second.urlRecord.initialDomain = domain)
    (schedule : List (Step Caller)) (hschedule : Interleaving schedule) :
    RescansAgree readers write (pair first second) (.text runId, .text domain) before
        (Calls.run readers write (pair first second) before schedule) ↔
      lastCore schedule = lastEnrichment schedule ∨
        SameCore readers first second ∨ SameEnrichment write first second := by
  have hkey : ∀ caller, statusKey (statusRow (pair first second caller).urlRecord) =
      some (.text runId, .text domain) := by
    intro caller
    rw [statusKey_statusRow]
    cases caller
    · rw [pair, hfirst.1, hfirst.2, Option.map_some]
    · rw [pair, hsecond.1, hsecond.2, Option.map_some]
  obtain ⟨core, hcore⟩ := exists_lastCore (hschedule.mem .first).1
  obtain ⟨enriched, henriched⟩ := hschedule.exists_lastEnrichment .first
  rw [rescansAgree_iff hkey hschedule hcore henriched, exists_same_iff, hcore, henriched,
    Option.some.injEq]

/-- A scan of a page with a title and a favicon. -/
def titledRecord (title : String) (hash : ℤ) : PersistedUrlRecord where
  urlRecord := { (default : UrlRecord) with
    initialDomain := "example.com", runId := some "run", title := title }
  favicon := some { faviconUrl := "/favicon.ico", hash := hash }

/-- Readers that are not called for such a page. -/
def idleReaders : Readers where
  json _ := none
  toLowercase := Text.toAsciiLowercase

/-- Two scans of a page, of which the second one is newer. -/
def oldAndNew : Caller → PersistedUrlRecord :=
  pair (titledRecord "old" 1) (titledRecord "new" 2)

/-- Calls that do not overlap agree. -/
theorem rescans_agree_in_turn :
    RescansAgree idleReaders (fun _ => "[]") oldAndNew (.text "run", .text "example.com")
      Database.empty (Calls.run idleReaders (fun _ => "[]") oldAndNew Database.empty
        [.core .first, .enrichment .first, .core .second, .enrichment .second]) :=
  (rescans_agree_iff idleReaders (fun _ => "[]") Database.empty (titledRecord "old" 1)
    (titledRecord "new" 2) "run" "example.com" ⟨rfl, rfl⟩ ⟨rfl, rfl⟩ _
    (by intro caller; cases caller <;> rfl)).mpr (.inl rfl)

/-- When the second call runs between the transactions of the first, the page gets the new title and
the old favicon. -/
theorem rescans_mix :
    ¬ RescansAgree idleReaders (fun _ => "[]") oldAndNew (.text "run", .text "example.com")
      Database.empty (Calls.run idleReaders (fun _ => "[]") oldAndNew Database.empty
        [.core .first, .core .second, .enrichment .second, .enrichment .first]) := by
  have hkey : ∀ caller, statusKey (statusRow (oldAndNew caller).urlRecord) =
      some (.text "run", .text "example.com") := by
    intro caller
    cases caller <;> rfl
  rw [rescansAgree_iff hkey (by intro caller; cases caller <;> rfl)
    (rfl : lastCore _ = some Caller.second) (rfl : lastEnrichment _ = some Caller.first)]
  rintro ⟨_ | _, hcore, henriched⟩
  · exact absurd hcore.1 (by decide)
  · exact absurd (henriched.1 .favicons (by decide)) (by decide)

end DomainStatus.Storage
