import DomainStatus.Storage.Enrichment

/-!
# What the enrichment transaction stores

The rows of each enrichment table after the transaction, for every choice of failing statements.
Read `writeEnrichments_spec` and `insertEnrichmentTxn_ok` first: a table holds the rows of the
statements before the first failing one, and a claim stands with the key of its secret.
-/

namespace DomainStatus.Storage

open Secrets

variable {faults : Faults} {urlStatusId : ℕ}

/-- The statements of a writer that are carried out. -/
def performed (faults : Faults) (table : Satellite) (inserts : List Insert) : List Insert :=
  inserts.take (completed (faults.hits table) 0 inserts.length)

/-- How a writer ends. -/
def outcome (faults : Faults) (table : Satellite) : Option (List Insert) → EnrichmentWrite
  | none => .skipped
  | some inserts =>
      if completed (faults.hits table) 0 inserts.length = inserts.length then .inserted else .failed

section Writers

variable {table other : Satellite} {inserts : Option (List Insert)} {state : EnrichmentState}

/-- One writer carries out its statements up to the one that fails. -/
theorem tryEnrich_db :
    (tryEnrich faults urlStatusId table inserts state).db =
      (performed faults table (inserts.getD [])).foldl
        (fun db insert => db.insert table urlStatusId insert) state.db := by
  cases inserts with
  | none => rfl
  | some inserts =>
      obtain ⟨hdb, -⟩ := runInserts_eq faults table urlStatusId 0 inserts state.db
      rw [Option.getD_some, performed, ← hdb, tryEnrich]
      rcases runInserts faults table urlStatusId 0 inserts state.db with ⟨_ | _, db⟩ <;> rfl

variable (faults urlStatusId inserts) in
/-- A writer notes how it ends. -/
theorem tryEnrich_notes (hskipped : state.summary.writes table = .skipped) :
    (tryEnrich faults urlStatusId table inserts state).summary =
        state.summary.note table (outcome faults table inserts) ∧
      (tryEnrich faults urlStatusId table inserts state).insertFailures.length =
        state.insertFailures.length + (outcome faults table inserts).isFailed.toNat := by
  cases inserts with
  | none =>
      refine ⟨?_, rfl⟩
      rw [outcome, ← hskipped, EnrichmentInsertSummary.note, Function.update_eq_self]
      rfl
  | some inserts =>
      obtain ⟨-, hok⟩ := runInserts_eq faults table urlStatusId 0 inserts state.db
      rw [tryEnrich, outcome]
      rcases hrun : runInserts faults table urlStatusId 0 inserts state.db with ⟨_ | _, db⟩
      · rw [hrun] at hok
        rw [if_neg fun h => absurd (hok.mpr h) (by simp [Except.isOk, Except.toBool])]
        simp [EnrichmentWrite.isFailed]
      · rw [hrun] at hok
        rw [if_pos (hok.mp rfl)]
        simp [EnrichmentWrite.isFailed]

/-- One writer touches its own table only. -/
theorem tryEnrich_satellites_ne (h : other ≠ table) :
    (tryEnrich faults urlStatusId table inserts state).db.satellites other =
      state.db.satellites other := by
  rw [tryEnrich_db, foldl_insert_satellites_ne h]

/-- The values of a page after one writer. -/
theorem tryEnrich_valuesOf :
    ((tryEnrich faults urlStatusId table inserts state).db.satellites table).valuesOf
        urlStatusId =
      mergedRows (performed faults table (inserts.getD []))
        ((state.db.satellites table).valuesOf urlStatusId) := by
  rw [tryEnrich_db, foldl_insert_valuesOf]

end Writers

section WriteTables

variable {inserts : Satellite → Option (List Insert)} {tables : List Satellite} {table : Satellite}
  {state : EnrichmentState}

/-- The writers do not touch the claims. -/
theorem writeTables_jwtClaims :
    (writeTables faults urlStatusId inserts tables state).db.jwtClaims = state.db.jwtClaims := by
  induction tables generalizing state with
  | nil => rfl
  | cons first rest ih =>
      rw [writeTables, List.foldl_cons, ← writeTables, ih, tryEnrich_db, foldl_insert_jwtClaims]

/-- The writers touch their own tables only. -/
theorem writeTables_satellites_ne (h : table ∉ tables) :
    (writeTables faults urlStatusId inserts tables state).db.satellites table =
      state.db.satellites table := by
  induction tables generalizing state with
  | nil => rfl
  | cons first rest ih =>
      rw [List.mem_cons, not_or] at h
      rw [writeTables, List.foldl_cons, ← writeTables, ih h.2, tryEnrich_satellites_ne h.1]

/-- A writer leaves the rows of its statements up to the first that fails. -/
theorem writeTables_valuesOf (hnodup : tables.Nodup) (h : table ∈ tables) :
    ((writeTables faults urlStatusId inserts tables state).db.satellites table).valuesOf
        urlStatusId =
      mergedRows (performed faults table ((inserts table).getD []))
        ((state.db.satellites table).valuesOf urlStatusId) := by
  induction tables generalizing state with
  | nil => cases h
  | cons first rest ih =>
      obtain ⟨hfirst, hrest⟩ := List.nodup_cons.mp hnodup
      rw [writeTables, List.foldl_cons, ← writeTables]
      rcases List.mem_cons.mp h with rfl | h
      · rw [writeTables_satellites_ne hfirst, tryEnrich_valuesOf]
      · rw [ih hrest h, tryEnrich_satellites_ne (ne_of_mem_of_not_mem h hfirst)]

variable (faults urlStatusId inserts) in
/-- The writers note how they end, each in the field of its table. -/
theorem writeTables_notes (hnodup : tables.Nodup)
    (hskipped : ∀ table ∈ tables, state.summary.writes table = .skipped) :
    (writeTables faults urlStatusId inserts tables state).summary =
        { state.summary with writes := fun table =>
            if table ∈ tables then outcome faults table (inserts table)
            else state.summary.writes table } ∧
      (writeTables faults urlStatusId inserts tables state).insertFailures.length =
        state.insertFailures.length +
          (tables.map fun table => (outcome faults table (inserts table)).isFailed.toNat).sum := by
  induction tables generalizing state with
  | nil => exact ⟨by simp [writeTables], rfl⟩
  | cons first rest ih =>
      obtain ⟨hfirst, hrest⟩ := List.nodup_cons.mp hnodup
      obtain ⟨hsummary, hfailures⟩ := tryEnrich_notes faults urlStatusId (inserts first)
        (hskipped first List.mem_cons_self)
      have hwrites : ∀ table ∈ rest, (tryEnrich faults urlStatusId first (inserts first)
          state).summary.writes table = .skipped := by
        intro table htable
        rw [hsummary, EnrichmentInsertSummary.note]
        simp only
        rw [Function.update_of_ne (ne_of_mem_of_not_mem htable hfirst)]
        exact hskipped table (List.mem_cons_of_mem _ htable)
      obtain ⟨ihsummary, ihfailures⟩ := ih hrest hwrites
      rw [writeTables, List.foldl_cons, ← writeTables, ihsummary, ihfailures, hfailures, hsummary]
      refine ⟨?_, by simp [Nat.add_assoc]⟩
      simp only [EnrichmentInsertSummary.note, EnrichmentInsertSummary.mk.injEq, true_and]
      funext table
      by_cases htable : table = first
      · subst htable
        simp [hfirst]
      · simp [htable]

end WriteTables

/-! ## Secrets and their claims -/

/-- The key of a row of `url_exposed_secrets`. -/
def secretKey (row : List Value) : List Value :=
  [row.getD 0 .null, row.getD 1 .null]

/-- The columns that tell the secrets of a page apart. -/
def secretKeyOf (secret : ExposedSecret) : List Value :=
  [.text secret.secretType, .text secret.matchedValue]

/-- The claims that a list of secrets carries, with the keys of the secrets. -/
def claimPairs (secrets : List ExposedSecret) : List (List Value × List Value) :=
  secrets.filterMap fun secret =>
    secret.decodedJwt.map fun jwt => (secretKeyOf secret, jwtValues jwt)

/-- Claims are merged when their secrets have the same key. -/
abbrev claimConflict : OnConflict (List Value × List Value) (List Value) :=
  .doUpdate fun pair => some pair.1

/-- The keys of the secrets of a page by their numbers. -/
def Database.secretKeys (db : Database) (urlStatusId id : ℕ) : Option (List Value) :=
  (db.satellites .exposedSecrets).keyOf secretKey urlStatusId id

/-- The claims of the secrets of a page, with the keys of the secrets. -/
def Database.claimsOf (db : Database) (urlStatusId : ℕ) : List (List Value × List Value) :=
  db.jwtClaims.joined (db.secretKeys urlStatusId)

/-- A secret replaces the one with its key. -/
theorem insertExposedSecret_onConflict (secret : ExposedSecret) :
    (insertExposedSecret secret).onConflict = .doUpdate fun row => some (secretKey row) := rfl

/-- The key of a secret's row. -/
theorem insertExposedSecret_key (secret : ExposedSecret) :
    secretKey ((insertExposedSecret secret).rows.getD 0 []) = secretKeyOf secret := rfl

/-- Inserting a secret changes the table of secrets. -/
theorem insert_exposedSecret_satellites (db : Database) (secret : ExposedSecret) :
    (db.insert .exposedSecrets urlStatusId (insertExposedSecret secret)).satellites
        .exposedSecrets =
      ((db.satellites .exposedSecrets).insert (.doUpdate fun row => some (secretKey row))
        urlStatusId ((insertExposedSecret secret).rows.getD 0 [])).2 :=
  Database.modify_satellites

/-- The loop makes the changes of its statements up to the first that fails. -/
theorem insertExposedSecrets_db (faults : Faults) (urlStatusId index : ℕ)
    (secrets : List ExposedSecret) (db : Database) :
    (insertExposedSecrets faults urlStatusId index secrets db).2 =
      ((secrets.map insertExposedSecret).take
        (completed (faults.hits .exposedSecrets) index secrets.length)).foldl
          (fun db insert => db.insert .exposedSecrets urlStatusId insert) db := by
  induction secrets generalizing index db with
  | nil => rfl
  | cons secret rest ih =>
      rw [insertExposedSecrets, List.length_cons, completed, Faults.hits]
      cases hfault : faults (.insert .exposedSecrets index) with
      | some message => simp
      | none =>
          obtain ⟨id, hid, -⟩ := Table.insert_keyOf (db.satellites .exposedSecrets) secretKey
            urlStatusId ((insertExposedSecret secret).rows.getD 0 [])
          simp only [insertExposedSecret_onConflict, hid]
          have ih := ih (index + 1)
            (db.insert .exposedSecrets urlStatusId (insertExposedSecret secret))
          rcases hrest : insertExposedSecrets faults urlStatusId (index + 1) rest
            (db.insert .exposedSecrets urlStatusId (insertExposedSecret secret)) with
            ⟨_ | _, after⟩ <;>
            simpa [hrest] using ih

/-- The key of a secret stays with its number. -/
theorem secretKeys_foldl_insert {secrets : List ExposedSecret} {db : Database} {id : ℕ}
    {key : List Value} (h : db.secretKeys urlStatusId id = some key) :
    ((secrets.map insertExposedSecret).foldl
      (fun db insert => db.insert .exposedSecrets urlStatusId insert) db).secretKeys urlStatusId
        id = some key := by
  induction secrets generalizing db with
  | nil => exact h
  | cons secret rest ih =>
      refine ih ?_
      rw [Database.secretKeys, insert_exposedSecret_satellites]
      exact Table.keyOf_insert h

/-- The loop succeeds when no statement fails. Its numbers then stand for the keys of the
secrets. -/
theorem insertExposedSecrets_spec (faults : Faults) (urlStatusId index : ℕ)
    (secrets : List ExposedSecret) (db : Database) :
    match insertExposedSecrets faults urlStatusId index secrets db with
    | (.error _, _) => completed (faults.hits .exposedSecrets) index secrets.length ≠ secrets.length
    | (.ok ids, after) =>
        completed (faults.hits .exposedSecrets) index secrets.length = secrets.length ∧
          List.Forall₂
            (fun secret id => after.secretKeys urlStatusId id = some (secretKeyOf secret))
            secrets ids := by
  induction secrets generalizing index db with
  | nil => exact ⟨rfl, List.Forall₂.nil⟩
  | cons secret rest ih =>
      rw [insertExposedSecrets, List.length_cons, completed, Faults.hits]
      cases hfault : faults (.insert .exposedSecrets index) with
      | some message => simp
      | none =>
          obtain ⟨id, hid, hkey⟩ := Table.insert_keyOf (db.satellites .exposedSecrets) secretKey
            urlStatusId ((insertExposedSecret secret).rows.getD 0 [])
          simp only [insertExposedSecret_onConflict, hid]
          have hdb := insertExposedSecrets_db faults urlStatusId (index + 1) rest
            (db.insert .exposedSecrets urlStatusId (insertExposedSecret secret))
          have ih := ih (index + 1)
            (db.insert .exposedSecrets urlStatusId (insertExposedSecret secret))
          rcases hrest : insertExposedSecrets faults urlStatusId (index + 1) rest
            (db.insert .exposedSecrets urlStatusId (insertExposedSecret secret)) with ⟨_ | _, after⟩
          · rw [hrest] at ih
            simpa using ih
          · rw [hrest] at ih hdb
            refine ⟨by simpa using ih.1, List.Forall₂.cons ?_ ih.2⟩
            simp only at hdb
            rw [hdb, ← List.map_take]
            refine secretKeys_foldl_insert ?_
            rw [Database.secretKeys, insert_exposedSecret_satellites, hkey,
              insertExposedSecret_key]

/-- The items for the claims carry the claims of the secrets. -/
theorem forall₂_jwtItems {keys : ℕ → Option (List Value)} {secrets : List ExposedSecret}
    {ids : List ℕ}
    (h : List.Forall₂ (fun secret id => keys id = some (secretKeyOf secret)) secrets ids) :
    List.Forall₂ (fun item pair => keys item.1 = some pair.1 ∧ jwtValues item.2 = pair.2)
      (jwtItems secrets ids) (claimPairs secrets) := by
  induction h with
  | nil => exact List.Forall₂.nil
  | @cons secret id secrets ids hkey htail ih =>
      cases hjwt : secret.decodedJwt with
      | none => simpa [jwtItems, claimPairs, hjwt] using ih
      | some jwt =>
          have hcons : List.Forall₂ (fun item pair => keys item.1 = some pair.1 ∧
              jwtValues item.2 = pair.2) ((id, jwt) :: jwtItems secrets ids)
              ((secretKeyOf secret, jwtValues jwt) :: claimPairs secrets) :=
            List.Forall₂.cons ⟨hkey, rfl⟩ ih
          simpa [jwtItems, claimPairs, hjwt] using hcons

/-- A statement for a claim fails. -/
def Faults.hitsClaims (faults : Faults) (index : ℕ) : Bool :=
  (faults (.insertJwtClaims index)).isSome

/-- The loop for the claims merges claims up to the first statement that fails, by the keys of
their secrets. -/
theorem insertJwtClaimsBatch_spec (faults : Faults) {keys : ℕ → Option (List Value)}
    {items : List (ℕ × DecodedJwt)} {pairs : List (List Value × List Value)}
    (hitems : List.Forall₂ (fun item pair => keys item.1 = some pair.1 ∧
      jwtValues item.2 = pair.2) items pairs)
    (hinj : ∀ id other key, keys id = some key → keys other = some key → other = id)
    {db : Database} (hkeys : db.secretKeys urlStatusId = keys) (index : ℕ) :
    (insertJwtClaimsBatch faults index items db).2.satellites = db.satellites ∧
      (insertJwtClaimsBatch faults index items db).2.claimsOf urlStatusId =
        (pairs.take (completed faults.hitsClaims index pairs.length)).foldl claimConflict.merge
          (db.claimsOf urlStatusId) ∧
      ((insertJwtClaimsBatch faults index items db).1.isOk = true ↔
        completed faults.hitsClaims index pairs.length = pairs.length) := by
  induction hitems generalizing index db with
  | nil => exact ⟨rfl, rfl, by simp [insertJwtClaimsBatch, completed, Except.isOk, Except.toBool]⟩
  | @cons item pair items pairs hitem htail ih =>
      obtain ⟨hkey, hvalues⟩ := hitem
      rw [insertJwtClaimsBatch, List.length_cons, completed, Faults.hitsClaims]
      cases hfault : faults (.insertJwtClaims index) with
      | some message => simp [Except.isOk, Except.toBool]
      | none =>
          obtain ⟨row, hrow, hid, -⟩ := Table.keyOf_eq_some.mp (hkeys ▸ hkey)
          have hhas : (db.satellites .exposedSecrets).hasId item.1 = true :=
            List.any_eq_true.mpr ⟨row, hrow, by simpa using hid⟩
          have hmerge : (db.insertClaims item.1 item.2 hhas).claimsOf urlStatusId =
              claimConflict.merge (db.claimsOf urlStatusId) pair := by
            rw [Database.claimsOf, Database.claimsOf, hkeys, ← Prod.mk.eta (p := pair), ← hvalues]
            have hsame : (db.insertClaims item.1 item.2 hhas).secretKeys urlStatusId = keys := hkeys
            rw [hsame]
            exact Table.joined_insert hkey (fun other hother => hinj _ _ _ hkey hother) _
          simp only [dif_pos hhas]
          obtain ⟨hsatellites, hclaims, hok⟩ :=
            @ih (db.insertClaims item.1 item.2 hhas) hkeys (index + 1)
          refine ⟨hsatellites, ?_, by simpa using hok⟩
          simpa [hmerge] using hclaims

/-- Without secrets no number has a key. -/
theorem secretKeys_eq_none {db : Database}
    (h : (db.satellites .exposedSecrets).valuesOf urlStatusId = []) (id : ℕ) :
    db.secretKeys urlStatusId id = none :=
  Table.keyOf_eq_none_of_valuesOf h

/-- New secrets have no claims yet. -/
theorem claimsOf_foldl_insert {secrets : List ExposedSecret} {db : Database}
    (h : ∀ claim ∈ db.jwtClaims.rows, db.secretKeys urlStatusId claim.parent = none) :
    ((secrets.map insertExposedSecret).foldl
      (fun db insert => db.insert .exposedSecrets urlStatusId insert) db).claimsOf urlStatusId =
        [] := by
  induction secrets generalizing db with
  | nil =>
      rw [Database.claimsOf, Table.joined, List.filterMap_eq_nil_iff]
      intro claim hclaim
      rw [List.map_nil, List.foldl_nil] at hclaim ⊢
      rw [h claim hclaim, Option.map_none]
  | cons secret rest ih =>
      refine ih fun claim hclaim => ?_
      rw [Database.insert_jwtClaims] at hclaim
      obtain ⟨row, hrow, hid⟩ := db.claim_parent claim hclaim
      rw [Database.secretKeys, insert_exposedSecret_satellites]
      refine Table.keyOf_insert_eq_none ?_ (h claim hclaim)
      exact List.any_eq_true.mpr ⟨row, hrow, by simpa using hid⟩

/-- The stored secrets have different keys. -/
theorem nodup_mergedRows_secrets {secrets : List ExposedSecret} {rows : List (List Value)}
    (h : (rows.map secretKey).Nodup) :
    ((mergedRows (secrets.map insertExposedSecret) rows).map secretKey).Nodup := by
  induction secrets generalizing rows with
  | nil => exact h
  | cons secret rest ih => exact ih (OnConflict.nodup_doUpdate h _)

/-- All secrets are written. -/
def secretsDone (faults : Faults) (secrets : List ExposedSecret) : Prop :=
  completed (faults.hits .exposedSecrets) 0 secrets.length = secrets.length

instance (faults : Faults) (secrets : List ExposedSecret) :
    Decidable (secretsDone faults secrets) :=
  inferInstanceAs (Decidable (_ = _))

/-- The claims that are carried out once the secrets are there. -/
def performedClaims (faults : Faults) (secrets : List ExposedSecret) :
    List (List Value × List Value) :=
  if secretsDone faults secrets then
    (claimPairs secrets).take (completed faults.hitsClaims 0 (claimPairs secrets).length)
  else []

/-- The claims fail although the secrets are there. -/
def claimsFail (faults : Faults) (secrets : List ExposedSecret) : Bool :=
  secretsDone faults secrets &&
    completed faults.hitsClaims 0 (claimPairs secrets).length ≠ (claimPairs secrets).length

/-- The tables after the loop for the secrets, when there are no rows of the page yet. Different
rows have different keys, and there are no claims. -/
theorem insertExposedSecrets_rows (faults : Faults) (secrets : List ExposedSecret) {db : Database}
    (hempty : (db.satellites .exposedSecrets).valuesOf urlStatusId = []) :
    let after := (insertExposedSecrets faults urlStatusId 0 secrets db).2
    (∀ other, other ≠ .exposedSecrets → after.satellites other = db.satellites other) ∧
      (after.satellites .exposedSecrets).valuesOf urlStatusId =
        mergedRows (performed faults .exposedSecrets (secrets.map insertExposedSecret)) [] ∧
      after.claimsOf urlStatusId = [] ∧
      ∀ id other key, after.secretKeys urlStatusId id = some key →
        after.secretKeys urlStatusId other = some key → other = id := by
  intro after
  have hafter : after = ((secrets.take
      (completed (faults.hits .exposedSecrets) 0 secrets.length)).map insertExposedSecret).foldl
        (fun db insert => db.insert .exposedSecrets urlStatusId insert) db := by
    rw [List.map_take]
    exact insertExposedSecrets_db faults urlStatusId 0 secrets db
  have hperformed : performed faults .exposedSecrets (secrets.map insertExposedSecret) =
      (secrets.take (completed (faults.hits .exposedSecrets) 0 secrets.length)).map
        insertExposedSecret := by
    rw [performed, List.length_map, List.map_take]
  have hvalues : (after.satellites .exposedSecrets).valuesOf urlStatusId =
      mergedRows (performed faults .exposedSecrets (secrets.map insertExposedSecret)) [] := by
    rw [hafter, foldl_insert_valuesOf, hempty, hperformed]
  refine ⟨fun other hother => ?_, hvalues, ?_, fun id other key hid hother => ?_⟩
  · rw [hafter, foldl_insert_satellites_ne hother]
  · rw [hafter]
    exact claimsOf_foldl_insert fun claim _ => secretKeys_eq_none hempty _
  · refine Table.keyOf_inj ?_ hother hid
    rw [hvalues, hperformed]
    exact nodup_mergedRows_secrets List.nodup_nil

/-- The statements for the secrets of a page. -/
abbrev secretInserts (secrets : List ExposedSecret) : Option (List Insert) :=
  nonempty secrets fun secrets => secrets.map insertExposedSecret

/-- The statements of the secrets. -/
theorem secretInserts_getD (secrets : List ExposedSecret) :
    (secretInserts secrets).getD [] = secrets.map insertExposedSecret := by
  cases secrets <;> rfl

/-- What the writer of the secrets does, when there are no rows of the page yet. -/
theorem insertExposedSecretsInTx_spec (faults : Faults) (secrets : List ExposedSecret)
    {state : EnrichmentState}
    (hempty : (state.db.satellites .exposedSecrets).valuesOf urlStatusId = [])
    (hskipped : state.summary.writes .exposedSecrets = .skipped) :
    let after := insertExposedSecretsInTx faults urlStatusId secrets state
    (∀ other, other ≠ .exposedSecrets → after.db.satellites other = state.db.satellites other) ∧
      (after.db.satellites .exposedSecrets).valuesOf urlStatusId =
        mergedRows (performed faults .exposedSecrets (secrets.map insertExposedSecret)) [] ∧
      after.db.claimsOf urlStatusId = claimConflict.mergeAll (performedClaims faults secrets) ∧
      after.summary = state.summary.note .exposedSecrets
        (outcome faults .exposedSecrets (secretInserts secrets)) ∧
      after.insertFailures.length = state.insertFailures.length +
        (outcome faults .exposedSecrets (secretInserts secrets)).isFailed.toNat +
          (claimsFail faults secrets).toNat := by
  intro after
  obtain ⟨hother, hvalues, hclaims, hinj⟩ :=
    insertExposedSecrets_rows faults secrets hempty
  have hspec := insertExposedSecrets_spec faults urlStatusId 0 secrets state.db
  cases secrets with
  | nil =>
      refine ⟨fun _ _ => rfl, hvalues, hclaims, ?_, rfl⟩
      change state.summary = state.summary.note .exposedSecrets .skipped
      rw [← hskipped, EnrichmentInsertSummary.note, Function.update_eq_self]
  | cons secret rest =>
      have houtcome : outcome faults .exposedSecrets (secretInserts (secret :: rest)) =
          if secretsDone faults (secret :: rest) then .inserted else .failed := by
        rw [secretInserts, nonempty, if_neg (by simp), outcome, List.length_map]
        rfl
      rw [houtcome]
      simp only [after, insertExposedSecretsInTx, List.isEmpty_cons, Bool.false_eq_true, if_false]
      rcases hrun : insertExposedSecrets faults urlStatusId 0 (secret :: rest) state.db with
        ⟨message | ids, db⟩
      · rw [hrun] at hother hvalues hclaims hspec
        have hdone : ¬ secretsDone faults (secret :: rest) := hspec
        refine ⟨hother, hvalues, ?_, ?_, ?_⟩
        · rw [performedClaims, if_neg hdone]
          exact hclaims
        · rw [if_neg hdone]
        · simp [claimsFail, hdone, EnrichmentWrite.isFailed]
      · rw [hrun] at hother hvalues hclaims hinj hspec
        obtain ⟨hdone, hkeys⟩ := hspec
        have hdone : secretsDone faults (secret :: rest) := hdone
        obtain ⟨hsatellites, hmerged, hok⟩ := insertJwtClaimsBatch_spec faults
          (forall₂_jwtItems hkeys) hinj rfl 0
        rw [if_pos hdone]
        rcases hbatch : insertJwtClaimsBatch faults 0 (jwtItems (secret :: rest) ids) db with
          ⟨answer, finished⟩
        rw [hbatch] at hsatellites hmerged hok
        have hothers : ∀ other, other ≠ .exposedSecrets →
            finished.satellites other = state.db.satellites other := by
          intro other hne
          rw [← hother other hne, hsatellites]
        have hrows : (finished.satellites .exposedSecrets).valuesOf urlStatusId =
            mergedRows (performed faults .exposedSecrets
              ((secret :: rest).map insertExposedSecret)) [] := by
          rw [← hvalues, hsatellites]
        have hperformed : finished.claimsOf urlStatusId =
            claimConflict.mergeAll (performedClaims faults (secret :: rest)) := by
          rw [performedClaims, if_pos hdone, OnConflict.mergeAll, hmerged, hclaims]
        simp only [hbatch]
        cases answer with
        | error message =>
            have hfail : claimsFail faults (secret :: rest) = true := by
              simpa [claimsFail, hdone, Except.isOk, Except.toBool] using hok
            exact ⟨hothers, hrows, hperformed, rfl, by simp [hfail, EnrichmentWrite.isFailed]⟩
        | ok _ =>
            have hfail : claimsFail faults (secret :: rest) = false := by
              simpa [claimsFail, hdone, Except.isOk, Except.toBool] using hok
            exact ⟨hothers, hrows, hperformed, rfl, by simp [hfail, EnrichmentWrite.isFailed]⟩

/-! ## All writers -/

/-- The rows of a table that are carried out. -/
def performedRows (write : WriteStrings) (faults : Faults) (record : PersistedUrlRecord)
    (table : Satellite) : List (List Value) :=
  mergedRows (performed faults table ((enrichmentInserts write record table).getD [])) []

/-- How the writer of a table ends. -/
def enrichmentOutcome (write : WriteStrings) (faults : Faults) (record : PersistedUrlRecord)
    (table : Satellite) : EnrichmentWrite :=
  outcome faults table (enrichmentInserts write record table)

/-- The writers leave the rows of their statements up to the first failing one in each table, and
note the failures. -/
theorem writeEnrichments_spec (write : WriteStrings) (faults : Faults)
    (record : PersistedUrlRecord) {db : Database}
    (hempty : ∀ table ∈ summaryTables, (db.satellites table).valuesOf urlStatusId = []) :
    let after := writeEnrichments write faults urlStatusId record { db := db }
    (∀ table ∈ summaryTables, (after.db.satellites table).valuesOf urlStatusId =
        performedRows write faults record table) ∧
      (∀ table ∉ summaryTables, after.db.satellites table = db.satellites table) ∧
      after.db.claimsOf urlStatusId =
        claimConflict.mergeAll (performedClaims faults record.exposedSecrets) ∧
      after.summary.partialFailuresFailed = 0 ∧
      (∀ table ∈ summaryTables,
        after.summary.writes table = enrichmentOutcome write faults record table) ∧
      after.insertFailures.length =
        (summaryTables.map fun table =>
          (enrichmentOutcome write faults record table).isFailed.toNat).sum +
            (claimsFail faults record.exposedSecrets).toNat := by
  obtain ⟨before, hbefore⟩ : ∃ state, state = writeTables faults urlStatusId
    (enrichmentInserts write record) [.geoip, .structuredData, .socialMediaLinks, .whois,
      .contactLinks] { db := db } := ⟨_, rfl⟩
  obtain ⟨middle, hmiddle⟩ : ∃ state, state = insertExposedSecretsInTx faults urlStatusId
    record.exposedSecrets before := ⟨_, rfl⟩
  obtain ⟨after, hafter⟩ : ∃ state, state = writeTables faults urlStatusId
    (enrichmentInserts write record) [.analyticsIds, .favicons] middle := ⟨_, rfl⟩
  rw [show writeEnrichments write faults urlStatusId record { db := db } = after by
    rw [hafter, hmiddle, hbefore]; rfl]
  obtain ⟨hsummary₁, hfailures₁⟩ := writeTables_notes faults urlStatusId
    (enrichmentInserts write record)
    (show [Satellite.geoip, .structuredData, .socialMediaLinks, .whois, .contactLinks].Nodup by
      decide)
    (fun _ _ => show ({ db := db } : EnrichmentState).summary.writes _ = .skipped from rfl)
  rw [← hbefore] at hsummary₁ hfailures₁
  have hsecrets : (before.db.satellites .exposedSecrets).valuesOf urlStatusId = [] := by
    rw [hbefore, writeTables_satellites_ne (by decide)]
    exact hempty _ (by decide)
  obtain ⟨hother, hvalues, hclaims, hsummary₂, hfailures₂⟩ := insertExposedSecretsInTx_spec
    faults record.exposedSecrets hsecrets (by rw [hsummary₁]; simp)
  rw [← hmiddle] at hother hvalues hclaims hsummary₂ hfailures₂
  obtain ⟨hsummary₃, hfailures₃⟩ := writeTables_notes faults urlStatusId
    (enrichmentInserts write record) (show [Satellite.analyticsIds, .favicons].Nodup by decide)
    (show ∀ table ∈ [Satellite.analyticsIds, .favicons], middle.summary.writes table = .skipped by
      simp [hsummary₂, hsummary₁, EnrichmentInsertSummary.note])
  rw [← hafter] at hsummary₃ hfailures₃
  refine ⟨fun table htable => ?_, fun table htable => ?_, ?_, ?_, fun table htable => ?_, ?_⟩
  · have hstart := hempty table htable
    rw [performedRows, hafter]
    by_cases hlast : table ∈ [Satellite.analyticsIds, .favicons]
    · have hexposed : table ≠ .exposedSecrets := by rintro rfl; exact absurd hlast (by decide)
      have hfirst : table ∉ [Satellite.geoip, .structuredData, .socialMediaLinks, .whois,
          .contactLinks] := by
        rcases List.mem_pair.mp hlast with rfl | rfl <;> decide
      rw [writeTables_valuesOf (by decide) hlast, hother _ hexposed, hbefore,
        writeTables_satellites_ne hfirst, hstart]
    · rw [writeTables_satellites_ne hlast]
      by_cases hexposed : table = .exposedSecrets
      · subst hexposed
        rw [hvalues, enrichmentInserts, secretInserts_getD]
      · have hfirst : table ∈ [Satellite.geoip, .structuredData, .socialMediaLinks, .whois,
            .contactLinks] := by
          simp only [summaryTables, List.mem_cons, List.not_mem_nil, or_false] at htable hlast ⊢
          tauto
        rw [hother _ hexposed, hbefore, writeTables_valuesOf (by decide) hfirst, hstart]
  · simp only [summaryTables, List.mem_cons, List.not_mem_nil, or_false, not_or] at htable
    rw [hafter, writeTables_satellites_ne (by simp [htable]), hother _ htable.2.2.2.2.2.2.2,
      hbefore, writeTables_satellites_ne (by simp [htable])]
  · rw [← hclaims, Database.claimsOf, Database.claimsOf, hafter, writeTables_jwtClaims]
    congr 1
    funext id
    rw [Database.secretKeys, Database.secretKeys, writeTables_satellites_ne (by decide)]
  · rw [hsummary₃, hsummary₂, hsummary₁]
    rfl
  · rw [hsummary₃, hsummary₂, hsummary₁]
    simp only [summaryTables, List.mem_cons, List.not_mem_nil, or_false] at htable
    rcases htable with rfl | rfl | rfl | rfl | rfl | rfl | rfl | rfl <;>
      simp [EnrichmentInsertSummary.note, enrichmentOutcome, enrichmentInserts]
  · rw [hfailures₃, hfailures₂, hfailures₁]
    simp only [summaryTables, enrichmentOutcome, enrichmentInserts, secretInserts, List.map_cons,
      List.map_nil, List.sum_cons, List.sum_nil, List.length_nil]
    omega

/-! ## The whole transaction -/

/-- The number of failing statements among the insertions into `url_partial_failures`. -/
def failedPartialFailures (faults : Faults) : ℕ → ℕ → ℕ
  | _, 0 => 0
  | index, count + 1 => (faults.hits .partialFailures index).toNat +
      failedPartialFailures faults (index + 1) count

/-- Some partial failure is not stored if its statement fails. -/
theorem failedPartialFailures_pos {index count : ℕ} :
    0 < failedPartialFailures faults index count ↔
      ∃ i < count, faults.hits .partialFailures (index + i) = true := by
  induction count generalizing index with
  | zero => simp [failedPartialFailures]
  | succ count ih =>
      rw [failedPartialFailures, Nat.add_pos_iff_pos_or_pos, ih]
      constructor
      · intro h
        rcases h with h | ⟨i, hi, h⟩
        · cases hhit : faults.hits .partialFailures index with
          | false => simp [hhit] at h
          | true => exact ⟨0, Nat.succ_pos _, hhit⟩
        · exact ⟨i + 1, Nat.succ_lt_succ hi, by rwa [← Nat.add_assoc, Nat.add_right_comm]⟩
      · intro h
        obtain ⟨i, hi, h⟩ := h
        cases i with
        | zero => exact .inl (by simp [show faults.hits .partialFailures index = true from h])
        | succ i => exact .inr ⟨i, Nat.lt_of_succ_lt_succ hi,
            by rwa [Nat.add_right_comm, Nat.add_assoc]⟩

/-- The loop for the partial failures writes no other table. -/
theorem insertPartialFailures_spec (faults : Faults) (urlStatusId index : ℕ)
    (failures : List UrlPartialFailureRecord) (summary : EnrichmentInsertSummary) (db : Database) :
    let finished := insertPartialFailures faults urlStatusId index failures summary db
    (∀ table, table ≠ .partialFailures → finished.2.satellites table = db.satellites table) ∧
      finished.2.jwtClaims = db.jwtClaims ∧ finished.1.writes = summary.writes ∧
      finished.1.partialFailuresFailed = summary.partialFailuresFailed +
        failedPartialFailures faults index failures.length := by
  induction failures generalizing index summary db with
  | nil => exact ⟨fun _ _ => rfl, rfl, rfl, rfl⟩
  | cons failure rest ih =>
      rcases hfault : faults (.insert .partialFailures index) with _ | message
      case some =>
          obtain ⟨htables, hclaims, hwrites, hfailed⟩ := ih (index + 1)
            { summary with partialFailuresFailed := summary.partialFailuresFailed + 1 } db
          simp only [insertPartialFailures, hfault]
          refine ⟨htables, hclaims, hwrites, hfailed.trans ?_⟩
          simp only [List.length_cons, failedPartialFailures, Faults.hits, hfault,
            Option.isSome_some, Bool.toNat_true]
          omega
      case none =>
          obtain ⟨htables, hclaims, hwrites, hfailed⟩ := ih (index + 1)
            { summary with
              partialFailuresInserted := summary.partialFailuresInserted + 1
              satelliteInsertErrorsInserted := summary.satelliteInsertErrorsInserted +
                if failure.errorType = .satelliteInsertError then 1 else 0 }
            (db.insert .partialFailures urlStatusId
              (insertUrlPartialFailure { failure with urlStatusId }))
          simp only [insertPartialFailures, hfault]
          refine ⟨fun table htable => ?_, ?_, hwrites, hfailed.trans ?_⟩
          · rw [htables table htable, Database.insert_satellites_ne htable]
          · rw [hclaims, Database.insert_jwtClaims]
          · simp [failedPartialFailures, Faults.hits, hfault]

/-- The deletions succeed when none of them fails. No row of the page is left. -/
theorem deleteChildRows_ok {tables : List Satellite} {db after : Database}
    (h : deleteChildRows faults urlStatusId tables db = (.ok (), after)) :
    ∀ table, (table ∈ tables → (after.satellites table).valuesOf urlStatusId = []) ∧
      ((db.satellites table).valuesOf urlStatusId = [] →
        (after.satellites table).valuesOf urlStatusId = []) ∧
      (table ∉ tables → after.satellites table = db.satellites table) := by
  induction tables generalizing db with
  | nil =>
      cases h
      exact fun table => ⟨fun h => absurd h List.not_mem_nil, id, fun _ => rfl⟩
  | cons first rest ih =>
      rw [deleteChildRows] at h
      split at h
      · cases h
      · intro table
        obtain ⟨hrest, hkeep, hother⟩ := ih h table
        have hdelete : (db.deleteOf first urlStatusId).satellites first =
            (db.satellites first).deleteOf urlStatusId := Database.modify_satellites
        by_cases htable : table = first
        · subst htable
          have hempty := hkeep (by rw [hdelete, Table.valuesOf_deleteOf])
          exact ⟨fun _ => hempty, fun _ => hempty, fun h => absurd List.mem_cons_self h⟩
        · have hsame : (db.deleteOf first urlStatusId).satellites table = db.satellites table :=
            Database.modify_satellites_ne htable
          rw [hsame] at hkeep hother
          refine ⟨fun h => hrest ((List.mem_cons.mp h).resolve_left htable), hkeep, fun h => ?_⟩
          exact hother fun hmem => h (List.mem_cons_of_mem _ hmem)

/-- The transaction as a whole fails. -/
def RolledBack (faults : Faults) : Prop :=
  (faults .begin).isSome = true ∨
    (∃ table ∈ Satellite.enrichment, (faults (.delete table)).isSome = true) ∨
    (faults .commit).isSome = true

/-- The clean-up succeeds if none of its deletes fails. -/
theorem deleteChildRows_isOk (faults : Faults) (urlStatusId : ℕ) (tables : List Satellite)
    (db : Database) :
    (∃ after, deleteChildRows faults urlStatusId tables db = (.ok (), after)) ↔
      ∀ table ∈ tables, (faults (.delete table)).isSome = false := by
  induction tables generalizing db with
  | nil => simp [deleteChildRows]
  | cons first rest ih =>
      rw [deleteChildRows]
      cases hfault : faults (.delete first) with
      | some message => simp [hfault]
      | none => simpa [hfault] using ih _

/-- What a transaction that commits has done: it has deleted the rows of before, run the writers and
stored the partial failures. -/
theorem insertEnrichmentTxn_eq_ok {write : WriteStrings} {record : PersistedUrlRecord}
    {coreFailures : List SatelliteWriteFailure} {db : Database}
    {finished : EnrichmentInsertSummary × Database}
    (h : insertEnrichmentTxn write faults db urlStatusId record coreFailures = .ok finished) :
    ∃ start, deleteChildRows faults urlStatusId Satellite.enrichment db = (.ok (), start) ∧
      let state := writeEnrichments write faults urlStatusId record { db := start }
      finished = insertPartialFailures faults urlStatusId 0
        (allPartialFailures urlStatusId record (coreFailures ++ state.insertFailures))
        state.summary state.db := by
  unfold insertEnrichmentTxn at h
  split at h
  · cases h
  · match hdelete : deleteChildRows faults urlStatusId Satellite.enrichment db with
    | (.error _, _) =>
        rw [hdelete] at h
        cases h
    | (.ok (), start) =>
        rw [hdelete] at h
        dsimp only at h
        split at h
        · cases h
        · exact ⟨start, rfl, (Except.ok.inj h).symm⟩

/-- What a transaction that commits leaves behind. -/
theorem insertEnrichmentTxn_ok (write : WriteStrings) {record : PersistedUrlRecord}
    {coreFailures : List SatelliteWriteFailure} {db after : Database}
    {summary : EnrichmentInsertSummary}
    (h : insertEnrichmentTxn write faults db urlStatusId record coreFailures =
      .ok (summary, after)) :
    (∀ table ∈ summaryTables, (after.satellites table).valuesOf urlStatusId =
        performedRows write faults record table) ∧
      (∀ table ∈ Satellite.core, after.satellites table = db.satellites table) ∧
      after.claimsOf urlStatusId =
        claimConflict.mergeAll (performedClaims faults record.exposedSecrets) ∧
      summary.totalFailures =
        (summaryTables.map fun table =>
          (enrichmentOutcome write faults record table).isFailed.toNat).sum +
        failedPartialFailures faults 0 (record.partialFailures.length + coreFailures.length +
          ((summaryTables.map fun table =>
            (enrichmentOutcome write faults record table).isFailed.toNat).sum +
              (claimsFail faults record.exposedSecrets).toNat)) := by
  obtain ⟨start, hdelete, hfinished⟩ := insertEnrichmentTxn_eq_ok h
  have hstart := deleteChildRows_ok hdelete
  obtain ⟨hrows, hother, hclaims, hfailed, hwrites, hfailures⟩ :=
    writeEnrichments_spec write faults record fun table htable =>
      (hstart table).1 (by revert htable; cases table <;> decide)
  obtain ⟨htables, hjwt, hnotes, hcount⟩ := insertPartialFailures_spec faults urlStatusId 0
    (allPartialFailures urlStatusId record (coreFailures ++
      (writeEnrichments write faults urlStatusId record { db := start }).insertFailures))
    (writeEnrichments write faults urlStatusId record { db := start }).summary
    (writeEnrichments write faults urlStatusId record { db := start }).db
  rw [← hfinished] at htables hjwt hnotes hcount
  refine ⟨fun table htable => ?_, fun table htable => ?_, ?_, ?_⟩
  · rw [htables table (by rintro rfl; exact absurd htable (by decide)), hrows table htable]
  · have hne : table ≠ .partialFailures := by rintro rfl; exact absurd htable (by decide)
    have hwriters : table ∉ summaryTables := by revert htable; cases table <;> decide
    have henrichment : table ∉ Satellite.enrichment := by
      rw [Satellite.mem_enrichment_iff, not_not]
      exact htable
    rw [htables table hne, hother table hwriters, (hstart table).2.2 henrichment]
  · rw [← hclaims, Database.claimsOf, Database.claimsOf, hjwt]
    congr 1
    funext id
    rw [Database.secretKeys, Database.secretKeys, htables _ (by decide)]
  · have hsum : (summaryTables.map fun table => (summary.writes table).isFailed.toNat) =
        summaryTables.map fun table =>
          (enrichmentOutcome write faults record table).isFailed.toNat :=
      List.map_congr_left fun table htable => by rw [hnotes, hwrites table htable]
    rw [EnrichmentInsertSummary.totalFailures, hsum, hcount, hfailed, allPartialFailures,
      List.length_append, List.length_map, List.length_append, hfailures, ← Nat.add_assoc]
    omega

end DomainStatus.Storage
