import DomainStatus.Storage.EnrichmentRows

/-!
# Batches of enrichments

Whether a group of enrichments is stored as a whole. A group with one statement always is. The
secrets, their claims and the structured data take several statements, and a failure between them
leaves a part of the group behind. Read `enrichment_all_or_nothing_iff` for the exact condition.
-/

namespace DomainStatus.Storage

open Secrets

variable {faults : Faults} {urlStatusId : ℕ}

/-- The rows of a record for a table, merged by its unique key. -/
def recordRows (write : WriteStrings) (record : PersistedUrlRecord) (table : Satellite) :
    List (List Value) :=
  mergedRows ((enrichmentInserts write record table).getD []) []

/-- The claims of a record with the keys of their secrets. Claims of one secret are merged. -/
def recordClaims (record : PersistedUrlRecord) : List (List Value × List Value) :=
  claimConflict.mergeAll (claimPairs record.exposedSecrets)

/-- All of a group is stored, or nothing and a failure is counted. -/
def Whole {α : Type} (stored expected : List α) (counted : Bool) : Prop :=
  stored = expected ∨ stored = [] ∧ counted = true

/-- Each group of a record is stored as a whole, and claims are stored with their secrets. -/
structure AllOrNothing (write : WriteStrings) (record : PersistedUrlRecord) (urlStatusId : ℕ)
    (summary : EnrichmentInsertSummary) (after : Database) : Prop where
  rows : ∀ table ∈ [Satellite.exposedSecrets, .structuredData, .socialMediaLinks, .contactLinks,
    .analyticsIds], Whole ((after.satellites table).valuesOf urlStatusId)
      (recordRows write record table) summary.hasFailures
  claims : Whole (after.claimsOf urlStatusId) (recordClaims record) summary.hasFailures
  belongs : ∀ claim ∈ after.jwtClaims.rows, ∀ row ∈ (after.satellites .exposedSecrets).rows,
    row.id = claim.parent → row.parent = urlStatusId →
      ∃ secret ∈ record.exposedSecrets, secretKey row.value = secretKeyOf secret ∧
        secret.decodedJwt.map jwtValues = some claim.value

/-- A failure other than that of the claims is counted. -/
def FailureCounted (write : WriteStrings) (faults : Faults) (record : PersistedUrlRecord)
    (coreFailures : List SatelliteWriteFailure) : Prop :=
  (∃ table ∈ summaryTables, (enrichmentOutcome write faults record table).isFailed = true) ∨
    ∃ i ≤ record.partialFailures.length + coreFailures.length,
      faults.hits .partialFailures i = true

/-- No group is cut in the middle. The first statement of a group may fail, but later ones only when
what they would write is there already. When the first statement for the claims fails, another
failure must be counted. -/
structure WritesWhole (write : WriteStrings) (faults : Faults) (record : PersistedUrlRecord)
    (coreFailures : List SatelliteWriteFailure) : Prop where
  secrets : completed (faults.hits .exposedSecrets) 0 record.exposedSecrets.length = 0 ∨
    mergedRows ((record.exposedSecrets.take
        (completed (faults.hits .exposedSecrets) 0 record.exposedSecrets.length)).map
          insertExposedSecret) [] =
      mergedRows (record.exposedSecrets.map insertExposedSecret) []
  structured : ∀ data, record.structuredData = some data →
    completed (faults.hits .structuredData) 0 (insertStructuredData data).length = 0 ∨
      completed (faults.hits .structuredData) 0 (insertStructuredData data).length =
        (insertStructuredData data).length
  claims : secretsDone faults record.exposedSecrets →
    claimConflict.mergeAll ((claimPairs record.exposedSecrets).take
        (completed faults.hitsClaims 0 (claimPairs record.exposedSecrets).length)) =
      recordClaims record ∨
    completed faults.hitsClaims 0 (claimPairs record.exposedSecrets).length = 0 ∧
      FailureCounted write faults record coreFailures

/-! ## Groups of rows -/

/-- Nothing is stored only if nothing is inserted. -/
theorem mergedRows_eq_nil {inserts : List Insert} (hrows : ∀ insert ∈ inserts, insert.rows ≠ [])
    {start : List (List Value)} : mergedRows inserts start = [] ↔ inserts = [] ∧ start = [] := by
  induction inserts generalizing start with
  | nil => simp [mergedRows]
  | cons insert rest ih =>
      rw [mergedRows, List.foldl_cons, ← mergedRows,
        ih fun other hother => hrows other (List.mem_cons_of_mem _ hother),
        OnConflict.foldl_merge_eq_nil]
      simp [hrows insert List.mem_cons_self]

/-- A batch is one statement with rows. -/
theorem mem_batch {columns : List String} {conflict : ConflictClause} {rows : List (List Value)}
    {insert : Insert} (h : insert ∈ Insert.batch columns conflict rows) :
    insert = { columns, conflict, rows } ∧ rows ≠ [] := by
  unfold Insert.batch at h
  split at h
  case isTrue => cases h
  case isFalse hrows => exact ⟨List.mem_singleton.mp h, by simpa using hrows⟩

/-- The statements of structured data have rows. -/
theorem mem_insertStructuredRows {dataType : String} {pairs : List (String × String)}
    {insert : Insert} (h : insert ∈ insertStructuredRows dataType pairs) :
    insert.rows ≠ [] ∧ insert.columns = ["data_type", "property_name", "property_value"] ∧
      insert.conflict = .doNothing ["data_type", "property_name", "property_value"] ∧
      ∀ row ∈ insert.rows, ∃ name value, row = [.text dataType, .text name, .text value] := by
  obtain ⟨rfl, hrows⟩ := mem_batch h
  refine ⟨hrows, rfl, rfl, fun row hrow => ?_⟩
  obtain ⟨pair, -, rfl⟩ := List.mem_map.mp hrow
  exact ⟨pair.1, pair.2, rfl⟩

/-- No statement is without rows. -/
theorem enrichmentInserts_rows_ne {write : WriteStrings} {record : PersistedUrlRecord}
    {table : Satellite} {insert : Insert}
    (h : insert ∈ (enrichmentInserts write record table).getD []) : insert.rows ≠ [] := by
  have hbatch : ∀ {columns conflict rows}, insert ∈ Insert.batch columns conflict rows →
      insert.rows ≠ [] := by
    intro columns conflict rows hinsert
    obtain ⟨rfl, hrows⟩ := mem_batch hinsert
    exact hrows
  have hlist : ∀ {α : Type} {items : List α} {writer : List α → List Insert},
      insert ∈ (nonempty items writer).getD [] → insert ∈ writer items := by
    intro α items writer hinsert
    unfold nonempty at hinsert
    split at hinsert
    · cases hinsert
    · exact hinsert
  have hoption : ∀ {α : Type} {item : Option α} {writer : α → List Insert},
      insert ∈ (item.map writer).getD [] → ∃ value, insert ∈ writer value := by
    intro α item writer hinsert
    cases item with
    | none => cases hinsert
    | some value => exact ⟨value, hinsert⟩
  cases table
  case structuredData =>
    obtain ⟨data, hmem⟩ := hoption h
    simp only [insertStructuredData, List.mem_append] at hmem
    obtain ((hmem | hmem) | hmem) | hmem := hmem <;> exact (mem_insertStructuredRows hmem).1
  case socialMediaLinks | contactLinks | analyticsIds =>
    have hmem := hlist h
    exact hbatch hmem
  case exposedSecrets =>
    obtain ⟨secret, -, rfl⟩ := List.mem_map.mp (hlist h)
    simp [insertExposedSecret]
  case geoip | whois | favicons =>
    obtain ⟨value, hmem⟩ := hoption h
    rw [List.mem_singleton.mp hmem]
    exact List.cons_ne_nil _ _
  all_goals cases h

/-- A group of rows is stored as a whole exactly when its first statement fails or what is carried
out makes all of its rows. -/
theorem whole_rows_iff {write : WriteStrings} {record : PersistedUrlRecord} {table : Satellite}
    {counted : Bool}
    (hcounted : (enrichmentOutcome write faults record table).isFailed = true → counted = true) :
    Whole (performedRows write faults record table) (recordRows write record table) counted ↔
      completed (faults.hits table) 0 ((enrichmentInserts write record table).getD []).length = 0 ∨
        performedRows write faults record table = recordRows write record table := by
  obtain ⟨inserts, hinserts⟩ :
      ∃ inserts, inserts = (enrichmentInserts write record table).getD [] := ⟨_, rfl⟩
  have hrows : ∀ insert ∈ inserts, insert.rows ≠ [] := by
    intro insert hinsert
    exact enrichmentInserts_rows_ne (hinserts ▸ hinsert)
  have hperformed : performedRows write faults record table = [] ↔
      completed (faults.hits table) 0 inserts.length = 0 := by
    rw [performedRows, ← hinserts, performed,
      mergedRows_eq_nil fun insert hinsert => hrows insert (List.mem_of_mem_take hinsert),
      List.take_eq_nil_iff]
    constructor
    · intro h
      obtain ⟨h | rfl, -⟩ := h
      · exact h
      · rfl
    · exact fun h => ⟨.inl h, rfl⟩
  rw [Whole, ← hinserts, ← hperformed]
  constructor
  · intro h
    rcases h with hsame | ⟨hnil, -⟩
    · exact .inr hsame
    · exact .inl hnil
  · intro h
    rcases h with hnil | hsame
    · by_cases hnone : inserts = []
      · refine .inl ?_
        rw [hnil, recordRows, ← hinserts, hnone]
        rfl
      · refine .inr ⟨hnil, hcounted ?_⟩
        rw [enrichmentOutcome]
        cases hsome : enrichmentInserts write record table with
        | none => exact absurd (by rw [hinserts, hsome]; rfl) hnone
        | some others =>
            rw [hsome, Option.getD_some] at hinserts
            subst hinserts
            rw [outcome, hperformed.mp hnil,
              if_neg fun h => hnone (List.length_eq_zero_iff.mp h.symm)]
            rfl
    · exact .inl hsame

/-- A group with at most one statement is stored as a whole. -/
theorem whole_of_length_le_one {write : WriteStrings} {record : PersistedUrlRecord}
    {table : Satellite} {counted : Bool}
    (hcounted : (enrichmentOutcome write faults record table).isFailed = true → counted = true)
    (hlength : ((enrichmentInserts write record table).getD []).length ≤ 1) :
    Whole (performedRows write faults record table) (recordRows write record table) counted := by
  rw [whole_rows_iff hcounted]
  have hle := completed_le (faults.hits table) 0
    ((enrichmentInserts write record table).getD []).length
  rcases Nat.eq_zero_or_pos (completed (faults.hits table) 0
    ((enrichmentInserts write record table).getD []).length) with hzero | hpos
  · exact .inl hzero
  · refine .inr ?_
    rw [performedRows, performed, List.take_of_length_le (by omega), recordRows]

/-- A batch is one statement at most. -/
theorem length_batch_le (columns : List String) (conflict : ConflictClause)
    (rows : List (List Value)) : (Insert.batch columns conflict rows).length ≤ 1 := by
  unfold Insert.batch
  split <;> simp

/-! ## Structured data -/

/-- Statements with one clause for conflicts merge all their rows by it. -/
theorem mergedRows_eq_foldl {conflict : OnConflict (List Value) (List Value)}
    {inserts : List Insert} (h : ∀ insert ∈ inserts, insert.onConflict = conflict)
    (start : List (List Value)) :
    mergedRows inserts start = (inserts.flatMap Insert.rows).foldl conflict.merge start := by
  induction inserts generalizing start with
  | nil => rfl
  | cons insert rest ih =>
      rw [mergedRows, List.foldl_cons, ← mergedRows, h insert List.mem_cons_self,
        ih fun other hother => h other (List.mem_cons_of_mem _ hother), List.flatMap_cons,
        List.foldl_append]

/-- No row of structured data is lost in the merge. -/
theorem mem_mergedRows_structured {inserts : List Insert}
    (h : ∀ insert ∈ inserts, ∃ dataType pairs, insert ∈ insertStructuredRows dataType pairs)
    {row : List Value} : row ∈ mergedRows inserts [] ↔ ∃ insert ∈ inserts, row ∈ insert.rows := by
  obtain ⟨key, hkey⟩ : ∃ key : List Value → Option (List Value), key = fun row =>
    some [row.getD 0 .null, row.getD 1 .null, row.getD 2 .null] := ⟨_, rfl⟩
  have hconflict : ∀ insert ∈ inserts, insert.onConflict = .doNothing key := by
    intro insert hinsert
    obtain ⟨dataType, pairs, hmem⟩ := h insert hinsert
    obtain ⟨-, hcolumns, hclause, -⟩ := mem_insertStructuredRows hmem
    rw [Insert.onConflict, hclause, hkey]
    simp [Insert.columnValues, hcolumns]
  -- The key is the whole row.
  have hrow : ∀ row ∈ inserts.flatMap Insert.rows, key row = some row := by
    intro row hrow
    obtain ⟨insert, hinsert, hrow⟩ := List.mem_flatMap.mp hrow
    obtain ⟨dataType, pairs, hmem⟩ := h insert hinsert
    obtain ⟨-, -, -, hform⟩ := mem_insertStructuredRows hmem
    obtain ⟨name, value, rfl⟩ := hform row hrow
    rw [hkey]
    rfl
  rw [mergedRows_eq_foldl hconflict, ← OnConflict.mergeAll,
    OnConflict.mem_mergeAll_doNothing, List.mem_flatMap]
  intro old hold new hnew hsame
  rw [hrow old hold, hrow new hnew, Option.some.injEq] at hsame
  exact hsame

/-- Different statements for structured data have different rows. -/
theorem pairwise_insertStructuredData (data : StructuredData) :
    (insertStructuredData data).Pairwise fun first second =>
      ∀ row ∈ second.rows, row ∉ first.rows := by
  have hpart : ∀ dataType pairs, (insertStructuredRows dataType pairs).Pairwise fun first second =>
      ∀ row ∈ second.rows, row ∉ first.rows := by
    intro dataType pairs
    unfold insertStructuredRows Insert.batch
    split <;> simp
  have hparts : ∀ {leftType rightType leftPairs rightPairs left right}, leftType ≠ rightType →
      left ∈ insertStructuredRows leftType leftPairs →
      right ∈ insertStructuredRows rightType rightPairs → ∀ row ∈ right.rows, row ∉ left.rows := by
    intro leftType rightType leftPairs rightPairs left right hne hleft hright row hrow hrow'
    obtain ⟨-, -, -, hform⟩ := mem_insertStructuredRows hright
    obtain ⟨-, -, -, hform'⟩ := mem_insertStructuredRows hleft
    obtain ⟨name, value, rfl⟩ := hform row hrow
    obtain ⟨name', value', h⟩ := hform' _ hrow'
    simp only [List.cons.injEq, Value.text.injEq] at h
    exact hne h.1.symm
  simp only [insertStructuredData, List.pairwise_append, List.mem_append, hpart, true_and]
  refine ⟨⟨fun left hleft right hright => hparts (by decide) hleft hright, ?_⟩, ?_⟩
  · rintro left (hleft | hleft) right hright <;> exact hparts (by decide) hleft hright
  · rintro left ((hleft | hleft) | hleft) right hright <;> exact hparts (by decide) hleft hright

/-- The statements of structured data come from its lists. -/
theorem mem_insertStructuredData {data : StructuredData} {insert : Insert}
    (h : insert ∈ insertStructuredData data) :
    ∃ dataType pairs, insert ∈ insertStructuredRows dataType pairs := by
  simp only [insertStructuredData, List.mem_append] at h
  obtain ((h | h) | h) | h := h <;> exact ⟨_, _, h⟩

/-- A part of the statements for structured data does not make all of its rows. -/
theorem mergedRows_take_structured {data : StructuredData} {count : ℕ}
    (h : mergedRows ((insertStructuredData data).take count) [] =
      mergedRows (insertStructuredData data) []) :
    (insertStructuredData data).length ≤ count := by
  by_contra hlt
  rw [Nat.not_le] at hlt
  -- A row of the first statement that is missing.
  obtain ⟨next, hnext⟩ : ∃ next, (insertStructuredData data)[count]? = some next :=
    ⟨_, List.getElem?_eq_getElem hlt⟩
  have hmem := List.mem_of_getElem? hnext
  obtain ⟨dataType, pairs, hstructured⟩ := mem_insertStructuredData hmem
  obtain ⟨row, hrow⟩ := List.exists_mem_of_ne_nil _ (mem_insertStructuredRows hstructured).1
  have hall : row ∈ mergedRows (insertStructuredData data) [] :=
    (mem_mergedRows_structured fun _ => mem_insertStructuredData).mpr ⟨next, hmem, hrow⟩
  rw [← h, mem_mergedRows_structured fun _ hinsert =>
    mem_insertStructuredData (List.mem_of_mem_take hinsert)] at hall
  obtain ⟨insert, hinsert, hrow'⟩ := hall
  have hsplit := pairwise_insertStructuredData data
  rw [← List.take_append_drop count (insertStructuredData data), List.pairwise_append] at hsplit
  refine hsplit.2.2 insert hinsert next ?_ row hrow hrow'
  rw [List.drop_eq_getElem_cons hlt,
    ← Option.some.inj (hnext.symm.trans (List.getElem?_eq_getElem hlt))]
  exact List.mem_cons_self

/-! ## Claims -/

/-- The claims are stored as a whole exactly when the first statement for them fails and another
failure is counted, or what is carried out makes all of them. -/
theorem whole_claims_iff {write : WriteStrings} {record : PersistedUrlRecord}
    {coreFailures : List SatelliteWriteFailure} {counted : Bool}
    (hcounted : counted = true ↔
      (∃ table ∈ summaryTables, (enrichmentOutcome write faults record table).isFailed = true) ∨
        ∃ i < record.partialFailures.length + coreFailures.length +
          (claimsFail faults record.exposedSecrets).toNat, faults.hits .partialFailures i = true) :
    Whole (claimConflict.mergeAll (performedClaims faults record.exposedSecrets))
        (recordClaims record) counted ↔
      (secretsDone faults record.exposedSecrets →
        claimConflict.mergeAll ((claimPairs record.exposedSecrets).take
            (completed faults.hitsClaims 0 (claimPairs record.exposedSecrets).length)) =
          recordClaims record ∨
        completed faults.hitsClaims 0 (claimPairs record.exposedSecrets).length = 0 ∧
          FailureCounted write faults record coreFailures) := by
  by_cases hdone : secretsDone faults record.exposedSecrets
  · rw [performedClaims, if_pos hdone, Whole, OnConflict.mergeAll_eq_nil, List.take_eq_nil_iff]
    simp only [hdone, forall_const]
    rcases Decidable.em (claimPairs record.exposedSecrets = []) with hnone | hsome
    · -- Without claims there is nothing to store.
      have hnil : claimConflict.mergeAll ((claimPairs record.exposedSecrets).take
          (completed faults.hitsClaims 0 (claimPairs record.exposedSecrets).length)) =
          recordClaims record := by
        rw [recordClaims, hnone]
        rfl
      exact ⟨fun _ => .inl hnil, fun _ => .inl hnil⟩
    · refine or_congr_right ?_
      simp only [hsome, or_false]
      refine and_congr_right fun hzero => ?_
      have hfail : claimsFail faults record.exposedSecrets = true := by
        simp [claimsFail, hdone, hzero, Ne.symm (mt List.length_eq_zero_iff.mp hsome)]
      rw [hcounted, hfail]
      simp only [FailureCounted, Bool.toNat_true, Nat.lt_succ_iff]
  · rw [performedClaims, if_neg hdone]
    refine ⟨fun _ h => absurd h hdone, fun _ => .inr ⟨rfl, hcounted.mpr (.inl ?_)⟩⟩
    refine ⟨.exposedSecrets, by decide, ?_⟩
    have hsome : record.exposedSecrets ≠ [] := by
      intro hnone
      exact hdone (by rw [hnone]; rfl)
    have hlength : completed (faults.hits .exposedSecrets) 0 record.exposedSecrets.length ≠
        record.exposedSecrets.length := hdone
    simp [enrichmentOutcome, enrichmentInserts, nonempty, hsome, outcome, hlength,
      EnrichmentWrite.isFailed]

/-- A stored claim belongs to the secret it was decoded from. -/
theorem claims_belong {record : PersistedUrlRecord} {after : Database}
    (hclaims : after.claimsOf urlStatusId =
      claimConflict.mergeAll (performedClaims faults record.exposedSecrets))
    {claim row : Row (List Value)} (hclaim : claim ∈ after.jwtClaims.rows)
    (hrow : row ∈ (after.satellites .exposedSecrets).rows) (hid : row.id = claim.parent)
    (hparent : row.parent = urlStatusId) :
    ∃ secret ∈ record.exposedSecrets, secretKey row.value = secretKeyOf secret ∧
      secret.decodedJwt.map jwtValues = some claim.value := by
  have hkey : after.secretKeys urlStatusId claim.parent = some (secretKey row.value) :=
    Table.keyOf_eq_some.mpr ⟨row, hrow, hid, hparent, rfl⟩
  have hmem : (secretKey row.value, claim.value) ∈ after.claimsOf urlStatusId :=
    List.mem_filterMap.mpr ⟨claim, hclaim, by rw [hkey]; rfl⟩
  rw [hclaims] at hmem
  have hpair : (secretKey row.value, claim.value) ∈ claimPairs record.exposedSecrets := by
    have hperformed := OnConflict.mem_of_mem_mergeAll hmem
    unfold performedClaims at hperformed
    split at hperformed
    · exact List.mem_of_mem_take hperformed
    · cases hperformed
  obtain ⟨secret, hsecret, hjwt⟩ := List.mem_filterMap.mp hpair
  obtain ⟨jwt, hsome, hsame⟩ := Option.map_eq_some_iff.mp hjwt
  rw [Prod.mk.injEq] at hsame
  exact ⟨secret, hsecret, hsame.1.symm, by rw [hsome, Option.map_some, hsame.2]⟩

/-! ## The transaction -/

/-- When a committed transaction counts a failure. -/
theorem hasFailures_iff {write : WriteStrings} {record : PersistedUrlRecord}
    {coreFailures : List SatelliteWriteFailure} {db after : Database}
    {summary : EnrichmentInsertSummary}
    (h : insertEnrichmentTxn write faults db urlStatusId record coreFailures =
      .ok (summary, after)) :
    summary.hasFailures = true ↔
      (∃ table ∈ summaryTables, (enrichmentOutcome write faults record table).isFailed = true) ∨
        ∃ i < record.partialFailures.length + coreFailures.length +
          (claimsFail faults record.exposedSecrets).toNat,
          faults.hits .partialFailures i = true := by
  obtain ⟨-, -, -, htotal⟩ := insertEnrichmentTxn_ok write h
  obtain ⟨failed, hfailed⟩ : ∃ failed, failed = (summaryTables.map fun table =>
    (enrichmentOutcome write faults record table).isFailed.toNat).sum := ⟨_, rfl⟩
  have hsome : 0 < failed ↔
      ∃ table ∈ summaryTables, (enrichmentOutcome write faults record table).isFailed = true := by
    have htoNat : ∀ failed : Bool, 0 < failed.toNat ↔ failed = true := by decide
    rw [hfailed, List.sum_pos_iff_exists_pos_nat]
    simp [htoNat]
  rw [EnrichmentInsertSummary.hasFailures, decide_eq_true_eq, htotal, ← hfailed,
    Nat.add_pos_iff_pos_or_pos, failedPartialFailures_pos, ← hsome]
  simp only [Nat.zero_add]
  rcases Nat.eq_zero_or_pos failed with hzero | hpos
  · rw [hzero, Nat.zero_add]
  · simp [hpos]

/-- What a committed transaction leaves behind is whole exactly when no group is cut. -/
theorem allOrNothing_iff {write : WriteStrings} {record : PersistedUrlRecord}
    {coreFailures : List SatelliteWriteFailure} {db after : Database}
    {summary : EnrichmentInsertSummary}
    (h : insertEnrichmentTxn write faults db urlStatusId record coreFailures =
      .ok (summary, after)) :
    AllOrNothing write record urlStatusId summary after ↔
      WritesWhole write faults record coreFailures := by
  obtain ⟨hrows, -, hclaims, -⟩ := insertEnrichmentTxn_ok write h
  have hcounted := hasFailures_iff h
  have hfailed : ∀ table ∈ summaryTables,
      (enrichmentOutcome write faults record table).isFailed = true → summary.hasFailures = true :=
    fun table htable houtcome => hcounted.mpr (.inl ⟨table, htable, houtcome⟩)
  have hsecrets := whole_rows_iff (hfailed .exposedSecrets (by decide))
  have hstructured := whole_rows_iff (hfailed .structuredData (by decide))
  rw [performedRows, recordRows, enrichmentInserts, secretInserts_getD, performed,
    List.length_map, ← List.map_take] at hsecrets
  constructor
  · intro h
    obtain ⟨hwhole, hwholeClaims, -⟩ := h
    rw [hclaims, whole_claims_iff hcounted] at hwholeClaims
    refine ⟨?_, fun data hdata => ?_, hwholeClaims⟩
    · have hsecret := hwhole .exposedSecrets (by decide)
      rw [hrows _ (by decide)] at hsecret
      rw [← hsecrets]
      simpa [performedRows, recordRows, enrichmentInserts, secretInserts_getD, performed]
        using hsecret
    · have hdatum := hwhole .structuredData (by decide)
      rw [hrows _ (by decide), hstructured, performedRows, recordRows, enrichmentInserts,
        hdata] at hdatum
      refine hdatum.imp_right fun hsame => ?_
      exact Nat.le_antisymm (completed_le _ _ _) (mergedRows_take_structured hsame)
  · intro h
    obtain ⟨hsecret, hdatum, hwholeClaims⟩ := h
    refine ⟨fun table htable => ?_, ?_,
      fun claim hclaim row hrow => claims_belong hclaims hclaim hrow⟩
    · have hmem : table ∈ summaryTables := by revert htable; cases table <;> decide
      rw [hrows table hmem]
      simp only [List.mem_cons, List.not_mem_nil, or_false] at htable
      rcases htable with rfl | rfl | hone
      · simpa [performedRows, recordRows, enrichmentInserts, secretInserts_getD, performed] using
          hsecrets.mpr hsecret
      · rw [hstructured, performedRows, recordRows, enrichmentInserts]
        cases hdata : record.structuredData with
        | none => exact .inl rfl
        | some data =>
            refine (hdatum data hdata).imp_right fun hall => ?_
            rw [Option.map_some, Option.getD_some, performed, hall, List.take_length]
      · refine whole_of_length_le_one (hfailed table hmem) ?_
        rcases hone with rfl | rfl | rfl <;> rw [enrichmentInserts, nonempty] <;> split <;>
          first
          | exact Nat.zero_le _
          | exact length_batch_le _ _ _
    · rwa [hclaims, whole_claims_iff hcounted]

/-- The transaction commits unless it begins, cleans up or commits with a failure. -/
theorem exists_ok_iff (urlStatusId : ℕ) (write : WriteStrings) (db : Database)
    (record : PersistedUrlRecord) (coreFailures : List SatelliteWriteFailure) :
    (∃ result, insertEnrichmentTxn write faults db urlStatusId record coreFailures = .ok result) ↔
      ¬ RolledBack faults := by
  have hdelete := deleteChildRows_isOk faults urlStatusId Satellite.enrichment db
  have hbacked : ¬ RolledBack faults ↔ faults .begin = none ∧
      (∃ after, deleteChildRows faults urlStatusId Satellite.enrichment db = (.ok (), after)) ∧
        faults .commit = none := by
    rw [hdelete]
    simp [RolledBack]
  rw [hbacked]
  unfold insertEnrichmentTxn
  cases faults .begin with
  | some message => simp
  | none =>
      rcases deleteChildRows faults urlStatusId Satellite.enrichment db with ⟨_ | _, after⟩
      · simp
      · cases faults .commit with
        | some message => simp
        | none => simp

/-- Every group of enrichments is stored as a whole exactly when the transaction is rolled back or
no group is cut in the middle. -/
theorem enrichment_all_or_nothing_iff (write : WriteStrings) (faults : Faults) (db : Database)
    (urlStatusId : ℕ) (record : PersistedUrlRecord) (coreFailures : List SatelliteWriteFailure) :
    (∀ summary after, insertEnrichmentTxn write faults db urlStatusId record coreFailures =
        .ok (summary, after) → AllOrNothing write record urlStatusId summary after) ↔
      RolledBack faults ∨ WritesWhole write faults record coreFailures := by
  constructor
  · intro hall
    rw [or_iff_not_imp_left, ← exists_ok_iff urlStatusId write db record coreFailures]
    intro h
    obtain ⟨⟨summary, after⟩, hok⟩ := h
    exact (allOrNothing_iff hok).mp (hall summary after hok)
  · rintro (hback | hwhole) summary after hok
    · exact absurd hback ((exists_ok_iff urlStatusId write db record coreFailures).mp ⟨_, hok⟩)
    · exact (allOrNothing_iff hok).mpr hwhole

/-- A page with two secrets. -/
def twoSecretsRecord : PersistedUrlRecord where
  urlRecord := default
  exposedSecrets := [
    { secretType := "aws-access-token", matchedValue := "AKIA1", severity := .critical,
      location := "body", context := "", decodedJwt := none },
    { secretType := "github-pat", matchedValue := "ghp_2", severity := .high,
      location := "body", context := "", decodedJwt := none }]

/-- The second insertion into `url_exposed_secrets` fails. -/
def secondSecretFails : Faults
  | .insert .exposedSecrets 1 => some "database or disk is full"
  | _ => none

/-- The first secret is committed without the second. -/
theorem enrichment_secrets_cut :
    ∃ summary after, insertEnrichmentTxn (fun _ => "[]") secondSecretFails Database.empty 1
        twoSecretsRecord [] = .ok (summary, after) ∧
      (after.satellites .exposedSecrets).valuesOf 1 =
        [[.text "aws-access-token", .text "AKIA1", .text "critical", .text "body", .text ""]] ∧
      ¬ AllOrNothing (fun _ => "[]") twoSecretsRecord 1 summary after := by
  have hnot : ¬ RolledBack secondSecretFails := by simp [RolledBack, secondSecretFails]
  obtain ⟨⟨summary, after⟩, hok⟩ := (exists_ok_iff 1 (fun _ => "[]") Database.empty
    twoSecretsRecord []).mpr hnot
  have hstored : (after.satellites .exposedSecrets).valuesOf 1 =
      [[.text "aws-access-token", .text "AKIA1", .text "critical", .text "body", .text ""]] := by
    rw [(insertEnrichmentTxn_ok _ hok).1 .exposedSecrets (by decide)]
    decide
  refine ⟨summary, after, hok, hstored, fun hwhole => ?_⟩
  have hrows := hwhole.rows .exposedSecrets (by decide)
  rw [hstored] at hrows
  rcases hrows with hsame | ⟨hnil, -⟩
  · revert hsame
    decide
  · cases hnil

end DomainStatus.Storage
