import DomainStatus.Storage.Database

/-!
# The enrichment transaction

The second transaction of a record, after `insert_enrichment_txn` of `src/storage/insert/record.rs`
and the writers under `src/storage/insert/enrichment`. It replaces the rows of the enrichment
tables. When a writer fails, the failure is noted and the transaction goes on. Read
`insertExposedSecrets_spec` first: the numbers of the secrets stand for their keys.
-/

namespace DomainStatus.Storage

open Fetch Secrets Whois

/-- What the crate `serde_json` writes for a list of texts. -/
abbrev WriteStrings := List String → String

/-! ## Writers -/

/-- Where the server is. -/
def insertGeoipData (geoip : GeoIpResult) : List Insert :=
  [{ columns := ["country_code", "country_name", "region", "city", "latitude", "longitude",
       "postal_code", "timezone", "asn", "asn_org"]
     conflict := .doUpdate []
     rows := [[.ofOption .text geoip.countryCode, .ofOption .text geoip.countryName,
       .ofOption .text geoip.region, .ofOption .text geoip.city, .ofOption .real geoip.latitude,
       .ofOption .real geoip.longitude, .ofOption .text geoip.postalCode,
       .ofOption .text geoip.timezone, .ofOption (fun asn => .integer asn.toNat) geoip.asn,
       .ofOption .text geoip.asnOrg]] }]

/-- The properties of one kind of structured data. -/
def insertStructuredRows (dataType : String) (rows : List (String × String)) : List Insert :=
  Insert.batch ["data_type", "property_name", "property_value"]
    (.doNothing ["data_type", "property_name", "property_value"])
    (rows.map fun (name, value) => [.text dataType, .text name, .text value])

/-- The entries of a map in the order of its iterator. -/
def HashMap.pairs {κ ν : Type} (map : Fingerprint.HashMap κ ν) : List (κ × ν) :=
  map.entries.map fun entry => (entry.1, entry.2)

/-- The structured data, kind by kind. -/
def insertStructuredData (data : StructuredData) : List Insert :=
  insertStructuredRows "json_ld" (data.jsonLd.map fun document => ("@document", document)) ++
    insertStructuredRows "open_graph" (HashMap.pairs data.openGraph) ++
    insertStructuredRows "twitter_card" (HashMap.pairs data.twitterCards) ++
    insertStructuredRows "schema_type"
      (((data.schemaTypes.map Text.trim).filter (· ≠ "")).map fun schema => (schema, ""))

/-- The links to social media. A later link replaces the identifier of an earlier one. -/
def insertSocialMediaLinks (links : List SocialMediaLink) : List Insert :=
  Insert.batch ["platform", "profile_url", "identifier"]
    (.doUpdate ["platform", "profile_url"])
    (links.map fun link =>
      [.text link.platform.asStr, .text link.url, .ofOption .text link.identifier])

/-- An empty list is stored as `NULL`. -/
def vecToJsonOrNull (write : WriteStrings) (values : List String) : Value :=
  if values.isEmpty then .null else .text (write values)

/-- The data of the domain, with its dates in milliseconds. -/
def insertWhoisData (write : WriteStrings) (whois : WhoisResult) : List Insert :=
  [{ columns := ["creation_date_ms", "expiration_date_ms", "updated_date_ms", "registrar",
       "registrant_country", "registrant_org", "whois_statuses", "nameservers_json",
       "raw_response"]
     conflict := .doUpdate []
     rows := [[.ofOption (fun date => .integer date.timestampMillis) whois.creationDate,
       .ofOption (fun date => .integer date.timestampMillis) whois.expirationDate,
       .ofOption (fun date => .integer date.timestampMillis) whois.updatedDate,
       .ofOption .text whois.registrar, .ofOption .text whois.registrantCountry,
       .ofOption .text whois.registrantOrg, vecToJsonOrNull write whois.status,
       vecToJsonOrNull write whois.nameservers, .ofOption .text whois.rawText]] }]

/-- The contacts of the page. A later link replaces the text of an earlier one. -/
def insertContactLinks (links : List ContactLink) : List Insert :=
  Insert.batch ["contact_type", "contact_value", "raw_href"]
    (.doUpdate ["contact_type", "contact_value"])
    (links.map fun link => [.text link.contactType.asStr, .text link.value, .text link.rawHref])

/-- The tracking ids of the page. -/
def insertAnalyticsIds (ids : List AnalyticsId) : List Insert :=
  Insert.batch ["provider", "tracking_id"] (.doNothing ["provider", "tracking_id"])
    (ids.map fun analytics => [.text analytics.provider.asStr, .text analytics.id])

/-- The favicon. -/
def insertFaviconData (favicon : FaviconData) : List Insert :=
  [{ columns := ["favicon_url", "hash"]
     conflict := .doUpdate []
     rows := [[.text favicon.faviconUrl, .integer favicon.hash]] }]

/-- The text of a severity. -/
def SecretSeverity.asStr : SecretSeverity → String
  | .critical => "critical"
  | .high => "high"
  | .medium => "medium"
  | .low => "low"

/-- The statement for one secret. -/
def insertExposedSecret (secret : ExposedSecret) : Insert where
  columns := ["secret_type", "matched_value", "severity", "location", "context"]
  conflict := .doUpdate ["secret_type", "matched_value"]
  rows := [[.text secret.secretType, .text secret.matchedValue,
    .text (SecretSeverity.asStr secret.severity), .text secret.location, .text secret.context]]

/-- `insert_exposed_secrets_in_tx` of the module `secrets`: the numbers of the rows of the secrets.
The loop ends with the first statement that fails. -/
def insertExposedSecrets (faults : Faults) (urlStatusId : ℕ) :
    ℕ → List ExposedSecret → Database → Except String (List ℕ) × Database
  | _, [], db => (.ok [], db)
  | index, secret :: rest, db =>
      match faults (.insert .exposedSecrets index) with
      | some message => (.error message, db)
      | none =>
          let insert := insertExposedSecret secret
          match ((db.satellites .exposedSecrets).insert insert.onConflict urlStatusId
              (insert.rows.getD 0 [])).1 with
          | none => (.error "no rows returned by a query that expected to return at least one row",
              db.insert .exposedSecrets urlStatusId insert)
          | some id =>
              match insertExposedSecrets faults urlStatusId (index + 1) rest
                  (db.insert .exposedSecrets urlStatusId insert) with
              | (.ok ids, db) => (.ok (id :: ids), db)
              | (.error message, db) => (.error message, db)

/-- The columns of `url_jwt_claims`. -/
def jwtValues (jwt : DecodedJwt) : List Value :=
  [.text jwt.headerJson, .text jwt.payloadJson, .ofOption .text jwt.algorithm,
    .ofOption .text jwt.tokenType, .ofOption .text jwt.issuer, .ofOption .text jwt.subject,
    .ofOption .text jwt.audience, .ofOption .integer jwt.expirationMs,
    .ofOption .integer jwt.issuedAtMs, .ofOption .integer jwt.notBeforeMs,
    .ofOption .text jwt.jwtId]

/-- `INSERT INTO url_jwt_claims` with `ON CONFLICT(exposed_secret_id) DO UPDATE`, for a secret that
is there. -/
def Database.insertClaims (db : Database) (secretId : ℕ) (jwt : DecodedJwt)
    (h : (db.satellites .exposedSecrets).hasId secretId = true) : Database where
  urlStatus := db.urlStatus
  satellites := db.satellites
  jwtClaims := (db.jwtClaims.insert Table.single secretId (jwtValues jwt)).2
  claim_parent := by
    intro claim hclaim
    rcases Table.parent_of_mem_insert hclaim with hparent | ⟨old, hold, hparent⟩
    · rw [hparent]
      simpa [Table.hasId] using h
    · rw [← hparent]
      exact db.claim_parent old hold

/-- `insert_jwt_claims_batch_in_tx`. -/
def insertJwtClaimsBatch (faults : Faults) :
    ℕ → List (ℕ × DecodedJwt) → Database → Except String Unit × Database
  | _, [], db => (.ok (), db)
  | index, (secretId, jwt) :: rest, db =>
      match faults (.insertJwtClaims index) with
      | some message => (.error message, db)
      | none =>
          if h : (db.satellites .exposedSecrets).hasId secretId = true then
            insertJwtClaimsBatch faults (index + 1) rest (db.insertClaims secretId jwt h)
          else (.error "FOREIGN KEY constraint failed", db)

/-- `insert_url_partial_failure_in_tx`. -/
def insertUrlPartialFailure (failure : UrlPartialFailureRecord) : Insert where
  columns := ["error_type", "error_message", "observed_at_ms", "run_id"]
  conflict := .none
  rows := [[.text failure.errorType.asStr, .text failure.errorMessage, .integer failure.timestamp,
    .ofOption .text failure.runId]]

/-! ## The transaction -/

/-- What became of the write of an enrichment. -/
inductive EnrichmentWrite where
  | skipped | inserted | failed
  deriving DecidableEq

/-- The write failed. -/
def EnrichmentWrite.isFailed : EnrichmentWrite → Bool
  | failed => true
  | _ => false

/-- How the writes went. The outcomes of the writers are kept by their tables. -/
structure EnrichmentInsertSummary where
  partialFailuresInserted : ℕ := 0
  satelliteInsertErrorsInserted : ℕ := 0
  partialFailuresFailed : ℕ := 0
  writes : Satellite → EnrichmentWrite := fun _ => .skipped

/-- The tables whose writes the summary has fields for. -/
def summaryTables : List Satellite :=
  [.geoip, .structuredData, .socialMediaLinks, .whois, .analyticsIds, .favicons, .contactLinks,
    .exposedSecrets]

/-- How many writes failed. -/
def EnrichmentInsertSummary.totalFailures (summary : EnrichmentInsertSummary) : ℕ :=
  summary.partialFailuresFailed +
    (summaryTables.map fun table => (summary.writes table).isFailed.toNat).sum

/-- Some write failed. -/
def EnrichmentInsertSummary.hasFailures (summary : EnrichmentInsertSummary) : Bool :=
  0 < summary.totalFailures

/-- Sets the field of a table. -/
def EnrichmentInsertSummary.note (summary : EnrichmentInsertSummary) (table : Satellite)
    (write : EnrichmentWrite) : EnrichmentInsertSummary :=
  { summary with writes := Function.update summary.writes table write }

/-- A failed write of a satellite, with the text of the error. -/
structure SatelliteWriteFailure where
  table : String
  message : String
  deriving DecidableEq

/-- The transaction between two writers. -/
structure EnrichmentState where
  db : Database
  summary : EnrichmentInsertSummary := {}
  insertFailures : List SatelliteWriteFailure := []

/-- The text of `DatabaseError::SqlError`. -/
def sqlError (message : String) : String :=
  "SQL error: " ++ message

/-- `try_enrich_tx` on the result of a writer, when there is something to write. -/
def tryEnrich (faults : Faults) (urlStatusId : ℕ) (table : Satellite)
    (inserts : Option (List Insert)) (state : EnrichmentState) : EnrichmentState :=
  match inserts with
  | none => state
  | some inserts =>
      match runInserts faults table urlStatusId 0 inserts state.db with
      | (.ok (), db) => { state with db := db, summary := state.summary.note table .inserted }
      | (.error message, db) =>
          { db := db
            summary := state.summary.note table .failed
            insertFailures := state.insertFailures ++
              [{ table := table.name, message := sqlError message }] }

/-- The claims of the secrets that have some, with the numbers of the secrets. -/
def jwtItems (secrets : List ExposedSecret) (ids : List ℕ) : List (ℕ × DecodedJwt) :=
  (secrets.zip ids).filterMap fun (secret, id) => secret.decodedJwt.map fun jwt => (id, jwt)

/-- `insert_exposed_secrets_in_tx` of the module `record`. -/
def insertExposedSecretsInTx (faults : Faults) (urlStatusId : ℕ) (secrets : List ExposedSecret)
    (state : EnrichmentState) : EnrichmentState :=
  if secrets.isEmpty then state
  else
    match insertExposedSecrets faults urlStatusId 0 secrets state.db with
    | (.ok ids, db) =>
        let summary := state.summary.note .exposedSecrets .inserted
        match insertJwtClaimsBatch faults 0 (jwtItems secrets ids) db with
        | (.ok (), db) => { state with db := db, summary := summary }
        -- The summary has no field for claims.
        | (.error message, db) =>
            { db := db
              summary := summary
              insertFailures := state.insertFailures ++
                [{ table := "url_jwt_claims", message := sqlError message }] }
    | (.error message, db) =>
        { db := db
          summary := state.summary.note .exposedSecrets .failed
          insertFailures := state.insertFailures ++
            [{ table := "url_exposed_secrets", message := sqlError message }] }

/-- The record of a failed write of a core satellite. -/
def satelliteWriteToPartialFailure (urlStatusId : ℕ) (timestamp : ℤ) (runId : Option String)
    (failure : SatelliteWriteFailure) : UrlPartialFailureRecord where
  urlStatusId := urlStatusId
  errorType := .satelliteInsertError
  errorMessage := failure.table ++ ": " ++ failure.message
  timestamp := timestamp
  runId := runId

/-- The loop of `insert_partial_failures_in_tx`. -/
def insertPartialFailures (faults : Faults) (urlStatusId : ℕ) :
    ℕ → List UrlPartialFailureRecord → EnrichmentInsertSummary → Database →
      EnrichmentInsertSummary × Database
  | _, [], summary, db => (summary, db)
  | index, failure :: rest, summary, db =>
      match faults (.insert .partialFailures index) with
      | some _ =>
          insertPartialFailures faults urlStatusId (index + 1) rest
            { summary with partialFailuresFailed := summary.partialFailuresFailed + 1 } db
      | none =>
          insertPartialFailures faults urlStatusId (index + 1) rest
            { summary with
              partialFailuresInserted := summary.partialFailuresInserted + 1
              satelliteInsertErrorsInserted := summary.satelliteInsertErrorsInserted +
                if failure.errorType = .satelliteInsertError then 1 else 0 }
            (db.insert .partialFailures urlStatusId
              (insertUrlPartialFailure { failure with urlStatusId }))

/-- A list is written when it has elements. -/
def nonempty {α : Type} (items : List α) (writer : List α → List Insert) : Option (List Insert) :=
  if items.isEmpty then none else some (writer items)

/-- The statements that a record asks for, by their table. -/
def enrichmentInserts (write : WriteStrings) (record : PersistedUrlRecord) :
    Satellite → Option (List Insert)
  | .geoip => record.geoip.map fun geoip => insertGeoipData geoip.2
  | .structuredData => record.structuredData.map insertStructuredData
  | .socialMediaLinks => nonempty record.socialMediaLinks insertSocialMediaLinks
  | .whois => record.whois.map (insertWhoisData write)
  | .contactLinks => nonempty record.contactLinks insertContactLinks
  | .exposedSecrets =>
      nonempty record.exposedSecrets fun secrets => secrets.map insertExposedSecret
  | .analyticsIds => nonempty record.analyticsIds insertAnalyticsIds
  | .favicons => record.favicon.map insertFaviconData
  | _ => none

/-- Runs the writers of some tables. -/
def writeTables (faults : Faults) (urlStatusId : ℕ) (inserts : Satellite → Option (List Insert))
    (tables : List Satellite) (state : EnrichmentState) : EnrichmentState :=
  tables.foldl (fun state table => tryEnrich faults urlStatusId table (inserts table) state) state

/-- The writers of the enrichment tables, one after the other. -/
def writeEnrichments (write : WriteStrings) (faults : Faults) (urlStatusId : ℕ)
    (record : PersistedUrlRecord) (state : EnrichmentState) : EnrichmentState :=
  let inserts := enrichmentInserts write record
  let state := writeTables faults urlStatusId inserts
    [.geoip, .structuredData, .socialMediaLinks, .whois, .contactLinks] state
  let state := insertExposedSecretsInTx faults urlStatusId record.exposedSecrets state
  writeTables faults urlStatusId inserts [.analyticsIds, .favicons] state

/-- The partial failures of the scan, and those of the writers. -/
def allPartialFailures (urlStatusId : ℕ) (record : PersistedUrlRecord)
    (writeFailures : List SatelliteWriteFailure) : List UrlPartialFailureRecord :=
  record.partialFailures ++ writeFailures.map
    (satelliteWriteToPartialFailure urlStatusId record.urlRecord.timestamp record.urlRecord.runId)

/-- `insert_enrichment_txn`. Without a commit the database stays as it was. -/
def insertEnrichmentTxn (write : WriteStrings) (faults : Faults) (db : Database) (urlStatusId : ℕ)
    (record : PersistedUrlRecord) (coreSatelliteFailures : List SatelliteWriteFailure) :
    Except String (EnrichmentInsertSummary × Database) :=
  match faults .begin with
  | some message => .error (sqlError message)
  | none =>
      match deleteChildRows faults urlStatusId Satellite.enrichment db with
      | (.error message, _) => .error (sqlError message)
      | (.ok (), db) =>
          let state := writeEnrichments write faults urlStatusId record { db := db }
          let finished := insertPartialFailures faults urlStatusId 0
            (allPartialFailures urlStatusId record (coreSatelliteFailures ++ state.insertFailures))
            state.summary state.db
          match faults .commit with
          | some message => .error (sqlError message)
          | none => .ok finished

/-- `insert_enrichment_data`. When the transaction fails, the rows of before are kept. -/
def insertEnrichmentData (write : WriteStrings) (faults : Faults) (db : Database) (urlStatusId : ℕ)
    (record : PersistedUrlRecord) (coreSatelliteFailures : List SatelliteWriteFailure) :
    EnrichmentInsertSummary × Database :=
  match insertEnrichmentTxn write faults db urlStatusId record coreSatelliteFailures with
  | .ok finished => finished
  | .error _ =>
      ({ partialFailuresFailed := coreSatelliteFailures.length + record.partialFailures.length },
        db)

end DomainStatus.Storage
