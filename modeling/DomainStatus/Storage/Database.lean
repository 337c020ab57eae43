import DomainStatus.Storage.Columns

/-!
# The database

The tables of the schema under `migrations/`, the statements that the storage layer sends to them,
and how a writer runs its statements. Any statement may fail: it then changes nothing, and the
transaction stays open. Read `runInserts_eq` first: a writer makes the changes of its statements up
to the first one that fails.
-/

namespace DomainStatus.Storage

/-- The tables whose rows belong to a row of `url_status`. -/
inductive Satellite where
  | technologies | nameservers | txtRecords | mxRecords | securityHeaders | httpHeaders
  | certificateOids | redirectChain | certificateSans | cnameRecords | ipv6Addresses | caaRecords
  | cspDomains | cookies | resourceHints | scriptHosts | securityTxt | robotsTxt | robotsDirectives
  | analyticsIds | structuredData | socialMediaLinks | contactLinks | exposedSecrets
  | partialFailures | favicons | geoip | whois
  deriving DecidableEq

namespace Satellite

/-- The name of a table. -/
def name : Satellite → String
  | technologies => "url_technologies"
  | nameservers => "url_nameservers"
  | txtRecords => "url_txt_records"
  | mxRecords => "url_mx_records"
  | securityHeaders => "url_security_headers"
  | httpHeaders => "url_http_headers"
  | certificateOids => "url_certificate_oids"
  | redirectChain => "url_redirect_chain"
  | certificateSans => "url_certificate_sans"
  | cnameRecords => "url_cname_records"
  | ipv6Addresses => "url_ipv6_addresses"
  | caaRecords => "url_caa_records"
  | cspDomains => "url_csp_domains"
  | cookies => "url_cookies"
  | resourceHints => "url_resource_hints"
  | scriptHosts => "url_script_hosts"
  | securityTxt => "url_security_txt"
  | robotsTxt => "url_robots_txt"
  | robotsDirectives => "url_robots_directives"
  | analyticsIds => "url_analytics_ids"
  | structuredData => "url_structured_data"
  | socialMediaLinks => "url_social_media_links"
  | contactLinks => "url_contact_links"
  | exposedSecrets => "url_exposed_secrets"
  | partialFailures => "url_partial_failures"
  | favicons => "url_favicons"
  | geoip => "url_geoip"
  | whois => "url_whois"

/-- `URL_STATUS_CORE_SATELLITE_TABLES`. -/
def core : List Satellite :=
  [technologies, nameservers, txtRecords, mxRecords, securityHeaders, httpHeaders, certificateOids,
    redirectChain, certificateSans, cnameRecords, ipv6Addresses, caaRecords, cspDomains, cookies,
    resourceHints, scriptHosts, securityTxt, robotsTxt, robotsDirectives]

/-- `URL_STATUS_ENRICHMENT_SATELLITE_TABLES`. -/
def enrichment : List Satellite :=
  [analyticsIds, structuredData, socialMediaLinks, contactLinks, exposedSecrets, partialFailures,
    favicons, geoip, whois]

/-- Every table is written by one of the two transactions. -/
theorem mem_enrichment_iff (table : Satellite) : table ∈ enrichment ↔ table ∉ core := by
  cases table <;> decide

end Satellite

/-- The statements of a transaction. Several insertions into one table are numbered. -/
inductive Statement where
  | begin
  | insertUrlStatus
  | updateUrlStatus
  | delete (table : Satellite)
  | insert (table : Satellite) (index : ℕ)
  | insertJwtClaims (index : ℕ)
  | commit
  deriving DecidableEq

/-- The statements that fail, with the text of the error. -/
abbrev Faults := Statement → Option String

/-- The tables. `url_jwt_claims` holds claims of exposed secrets and only of these. -/
structure Database where
  urlStatus : StatusTable
  satellites : Satellite → Table (List Value)
  jwtClaims : Table (List Value)
  claim_parent : ∀ claim ∈ jwtClaims.rows,
    ∃ secret ∈ (satellites .exposedSecrets).rows, secret.id = claim.parent

namespace Database

/-- A database without rows. -/
def empty : Database where
  urlStatus := ∅
  satellites _ := ∅
  jwtClaims := ∅
  claim_parent := nofun

/-- Changes a table. The claims of deleted secrets go with them. -/
def modify (db : Database) (table : Satellite) (change : Table (List Value) → Table (List Value)) :
    Database :=
  let satellites := Function.update db.satellites table (change (db.satellites table))
  { urlStatus := db.urlStatus
    satellites := satellites
    jwtClaims := db.jwtClaims.filter fun claim => (satellites .exposedSecrets).hasId claim.parent
    claim_parent := by
      intro claim hclaim
      have hparent := List.of_mem_filter hclaim
      simpa [Table.hasId] using hparent }

/-- `DELETE FROM table WHERE url_status_id = ?`. -/
def deleteOf (db : Database) (table : Satellite) (urlStatusId : ℕ) : Database :=
  db.modify table (·.deleteOf urlStatusId)

end Database

/-- What `ON CONFLICT` says about rows with equal values in some columns. -/
inductive ConflictClause where
  | none
  | doNothing (columns : List String)
  | doUpdate (columns : List String)

/-- An `INSERT` statement for rows of one parent. The column of the parent is left out. -/
structure Insert where
  columns : List String
  conflict : ConflictClause
  rows : List (List Value)

namespace Insert

/-- The values of some columns in a row. -/
def columnValues (insert : Insert) (columns : List String) (row : List Value) : List Value :=
  columns.map fun column => row.getD (insert.columns.idxOf column) .null

/-- What the conflict clause of an INSERT does with two rows. -/
def onConflict (insert : Insert) : OnConflict (List Value) (List Value) :=
  match insert.conflict with
  | .none => .unchecked
  | .doNothing columns => .doNothing fun row => some (insert.columnValues columns row)
  | .doUpdate columns => .doUpdate fun row => some (insert.columnValues columns row)

/-- `build_batch_insert_query`: without rows there is no statement. -/
def batch (columns : List String) (conflict : ConflictClause) (rows : List (List Value)) :
    List Insert :=
  if rows.isEmpty then [] else [{ columns, conflict, rows }]

end Insert

/-- The changes of an insertion. -/
def Database.insert (db : Database) (table : Satellite) (parent : ℕ) (insert : Insert) : Database :=
  db.modify table fun table =>
    insert.rows.foldl (fun table row => (table.insert insert.onConflict parent row).2) table

/-- `delete_child_rows`. -/
def deleteChildRows (faults : Faults) (urlStatusId : ℕ) :
    List Satellite → Database → Except String Unit × Database
  | [], db => (.ok (), db)
  | table :: rest, db =>
      match faults (.delete table) with
      | some message => (.error message, db)
      | none => deleteChildRows faults urlStatusId rest (db.deleteOf table urlStatusId)

/-- Runs the statements of a writer up to the first that fails. -/
def runInserts (faults : Faults) (table : Satellite) (parent : ℕ) :
    ℕ → List Insert → Database → Except String Unit × Database
  | _, [], db => (.ok (), db)
  | index, insert :: rest, db =>
      match faults (.insert table index) with
      | some message => (.error message, db)
      | none => runInserts faults table parent (index + 1) rest (db.insert table parent insert)

/-! ## What statements change -/

namespace Database

variable {db : Database} {table other : Satellite} {urlStatusId parent : ℕ}

/-- A change of one table does not touch the others. -/
theorem modify_satellites_ne {change : Table (List Value) → Table (List Value)}
    (h : other ≠ table) : (db.modify table change).satellites other = db.satellites other :=
  Function.update_of_ne h _ _

/-- A change of a table is seen in it. -/
theorem modify_satellites {change : Table (List Value) → Table (List Value)} :
    (db.modify table change).satellites table = change (db.satellites table) :=
  Function.update_self _ _ _

/-- A claim belongs to a secret that is there. -/
theorem hasId_claim (db : Database) {claim : Row (List Value)} (h : claim ∈ db.jwtClaims.rows) :
    (db.satellites .exposedSecrets).hasId claim.parent = true := by
  obtain ⟨secret, hsecret, hid⟩ := db.claim_parent claim h
  exact List.any_eq_true.mpr ⟨secret, hsecret, by simpa using hid⟩

/-- A change of another table does not touch the claims. -/
theorem modify_jwtClaims_ne {change : Table (List Value) → Table (List Value)}
    (h : Satellite.exposedSecrets ≠ table) : (db.modify table change).jwtClaims = db.jwtClaims := by
  refine Table.filter_eq_self fun claim hclaim => ?_
  rw [Function.update_of_ne h]
  exact db.hasId_claim hclaim

/-- As long as no secret is deleted, claims stay. -/
theorem modify_jwtClaims {change : Table (List Value) → Table (List Value)}
    (h : ∀ id, (db.satellites table).hasId id = true →
      (change (db.satellites table)).hasId id = true) :
    (db.modify table change).jwtClaims = db.jwtClaims := by
  by_cases htable : Satellite.exposedSecrets = table
  · subst htable
    refine Table.filter_eq_self fun claim hclaim => ?_
    rw [Function.update_self]
    exact h _ (db.hasId_claim hclaim)
  · exact modify_jwtClaims_ne htable

/-- Inserts keep the numbers there are. -/
theorem hasId_foldl_insert {conflict : OnConflict (List Value) (List Value)}
    {rows : List (List Value)} {start : Table (List Value)} {id : ℕ} (h : start.hasId id = true) :
    (rows.foldl (fun table row => (table.insert conflict parent row).2) start).hasId id = true := by
  induction rows generalizing start with
  | nil => exact h
  | cons row rest ih => exact ih (Table.hasId_insert h)

@[simp] theorem insert_urlStatus (insert : Insert) :
    (db.insert table parent insert).urlStatus = db.urlStatus := rfl

@[simp] theorem insert_jwtClaims (insert : Insert) :
    (db.insert table parent insert).jwtClaims = db.jwtClaims :=
  modify_jwtClaims fun _ => hasId_foldl_insert

/-- An insert into one table does not touch the others. -/
theorem insert_satellites_ne {insert : Insert} (h : other ≠ table) :
    (db.insert table parent insert).satellites other = db.satellites other :=
  modify_satellites_ne h

/-- The values of a page after inserts. -/
theorem valuesOf_foldl_insert {conflict : OnConflict (List Value) (List Value)}
    {rows : List (List Value)} {start : Table (List Value)} :
    (rows.foldl (fun table row => (table.insert conflict parent row).2) start).valuesOf parent =
      rows.foldl conflict.merge (start.valuesOf parent) := by
  induction rows generalizing start with
  | nil => rfl
  | cons row rest ih => rw [List.foldl_cons, ih, Table.insert_valuesOf, List.foldl_cons]

/-- The values of a page after one statement. -/
theorem insert_valuesOf (insert : Insert) :
    ((db.insert table parent insert).satellites table).valuesOf parent =
      insert.rows.foldl insert.onConflict.merge ((db.satellites table).valuesOf parent) := by
  rw [Database.insert, modify_satellites, valuesOf_foldl_insert]

end Database

/-- The number of statements before the first one that fails. -/
def completed (fails : ℕ → Bool) : ℕ → ℕ → ℕ
  | _, 0 => 0
  | index, count + 1 => if fails index then 0 else completed fails (index + 1) count + 1

/-- No more statements are completed than there are. -/
theorem completed_le (fails : ℕ → Bool) (index count : ℕ) :
    completed fails index count ≤ count := by
  induction count generalizing index with
  | zero => exact Nat.le_refl 0
  | succ count ih =>
      rw [completed]
      split
      · exact Nat.zero_le _
      · exact Nat.succ_le_succ (ih _)

/-- A statement of an insertion fails. -/
def Faults.hits (faults : Faults) (table : Satellite) (index : ℕ) : Bool :=
  (faults (.insert table index)).isSome

/-- A writer makes the changes of its statements up to the first that fails, and succeeds when none
does. -/
theorem runInserts_eq (faults : Faults) (table : Satellite) (parent index : ℕ)
    (inserts : List Insert) (db : Database) :
    (runInserts faults table parent index inserts db).2 =
        (inserts.take (completed (faults.hits table) index inserts.length)).foldl
          (fun db insert => db.insert table parent insert) db ∧
      ((runInserts faults table parent index inserts db).1.isOk = true ↔
        completed (faults.hits table) index inserts.length = inserts.length) := by
  induction inserts generalizing index db with
  | nil => exact ⟨rfl, by simp [runInserts, completed, Except.isOk, Except.toBool]⟩
  | cons insert rest ih =>
      rw [runInserts, List.length_cons, completed, Faults.hits]
      cases hfault : faults (.insert table index) with
      | some message => simp [Except.isOk, Except.toBool]
      | none => simpa using ih (index + 1) (db.insert table parent insert)

/-- The rows that some statements leave, from given ones on. -/
def mergedRows (inserts : List Insert) (start : List (List Value)) : List (List Value) :=
  inserts.foldl (fun rows insert => insert.rows.foldl insert.onConflict.merge rows) start

section Foldl

variable {table other : Satellite} {parent : ℕ} {inserts : List Insert} {db : Database}

/-- Inserts into one table do not touch the others. -/
theorem foldl_insert_satellites_ne (h : other ≠ table) :
    (inserts.foldl (fun db insert => db.insert table parent insert) db).satellites other =
      db.satellites other := by
  induction inserts generalizing db with
  | nil => rfl
  | cons insert rest ih => rw [List.foldl_cons, ih, Database.insert_satellites_ne h]

/-- Inserts into a satellite do not touch the main table. -/
theorem foldl_insert_urlStatus :
    (inserts.foldl (fun db insert => db.insert table parent insert) db).urlStatus =
      db.urlStatus := by
  induction inserts generalizing db with
  | nil => rfl
  | cons insert rest ih => rw [List.foldl_cons, ih, Database.insert_urlStatus]

/-- Inserts do not touch the claims. -/
theorem foldl_insert_jwtClaims :
    (inserts.foldl (fun db insert => db.insert table parent insert) db).jwtClaims =
      db.jwtClaims := by
  induction inserts generalizing db with
  | nil => rfl
  | cons insert rest ih => rw [List.foldl_cons, ih, Database.insert_jwtClaims]

/-- The values of a page after the statements. -/
theorem foldl_insert_valuesOf :
    ((inserts.foldl (fun db insert => db.insert table parent insert) db).satellites
        table).valuesOf parent =
      mergedRows inserts ((db.satellites table).valuesOf parent) := by
  induction inserts generalizing db with
  | nil => rfl
  | cons insert rest ih => rw [List.foldl_cons, ih, Database.insert_valuesOf, mergedRows,
      mergedRows, List.foldl_cons]

end Foldl

end DomainStatus.Storage
