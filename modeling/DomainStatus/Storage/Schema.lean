import DomainStatus.Storage.Pages

/-!
# Column types

The columns of the tables with their types, after the files under `migrations/`. Only the columns
that a writer fills are listed, in the order of its statement. Read `fits_coreRows` and
`fits_enrichmentRows` first: what the writers store has the declared types.
-/

namespace DomainStatus.Storage

/-- The types of columns. -/
inductive ColumnType where
  | text | integer | real
  deriving DecidableEq

/-- A column as the migrations declare it. -/
structure Column where
  name : String
  type : ColumnType
  nullable : Bool := false

/-- The value may stand in the column. -/
def Column.admits (column : Column) : Value → Bool
  | .null => column.nullable
  | .text _ => column.type = .text
  | .integer _ => column.type = .integer
  | .real _ => column.type = .real

/-- `NOT NULL` columns. -/
def textColumn (name : String) : Column := { name, type := .text }

/-- A column with an `INTEGER NOT NULL`. -/
def integerColumn (name : String) : Column := { name, type := .integer }

/-- A column with a `REAL NOT NULL`. -/
def realColumn (name : String) : Column := { name, type := .real }

/-- Columns that may be `NULL`. -/
def textOrNull (name : String) : Column := { name, type := .text, nullable := true }

/-- A column with an `INTEGER`. -/
def integerOrNull (name : String) : Column := { name, type := .integer, nullable := true }

/-- A column with a `REAL`. -/
def realOrNull (name : String) : Column := { name, type := .real, nullable := true }

namespace Satellite

/-- The columns of a table. A `BOOLEAN` is a number. -/
def schema : Satellite → List Column
  | technologies => [textColumn "technology_name", textOrNull "technology_version",
      textOrNull "technology_category", integerColumn "is_implied", textOrNull "detection_source"]
  | nameservers => [textColumn "nameserver"]
  | txtRecords => [textColumn "record_value", textColumn "record_type"]
  | mxRecords => [integerColumn "priority", textColumn "mail_exchange"]
  | securityHeaders | httpHeaders => [textColumn "header_name", textColumn "header_value"]
  | certificateOids => [textColumn "oid"]
  | redirectChain => [integerColumn "sequence_order", textColumn "redirect_url",
      integerOrNull "http_status"]
  | certificateSans => [textColumn "san_value"]
  | cnameRecords => [textColumn "cname_target"]
  | ipv6Addresses => [textColumn "ipv6_address"]
  | caaRecords => [integerColumn "flag", textColumn "tag", textColumn "value"]
  | cspDomains => [textColumn "directive", textColumn "fqdn", textOrNull "registrable_domain"]
  | cookies => [textColumn "cookie_name", integerColumn "secure", integerColumn "http_only",
      textOrNull "same_site", textOrNull "domain", textOrNull "path"]
  | resourceHints => [textColumn "hint_type", textColumn "href"]
  | scriptHosts => [textColumn "host", textOrNull "registrable_domain",
      integerColumn "is_first_party"]
  | securityTxt => [textOrNull "source_url", integerOrNull "http_status", textOrNull "contacts",
      textOrNull "expires", textOrNull "encryption", textOrNull "acknowledgments",
      textOrNull "preferred_languages", textOrNull "canonical", textOrNull "policy",
      textOrNull "hiring", textOrNull "raw_body"]
  | robotsTxt => [integerOrNull "http_status", textOrNull "raw_body"]
  | robotsDirectives => [textColumn "directive", textColumn "value"]
  | analyticsIds => [textColumn "provider", textColumn "tracking_id"]
  | structuredData => [textColumn "data_type", textColumn "property_name",
      textColumn "property_value"]
  | socialMediaLinks => [textColumn "platform", textColumn "profile_url", textOrNull "identifier"]
  | contactLinks => [textColumn "contact_type", textColumn "contact_value", textColumn "raw_href"]
  | exposedSecrets => [textColumn "secret_type", textColumn "matched_value",
      textColumn "severity", textColumn "location", textOrNull "context"]
  | partialFailures => [textColumn "error_type", textColumn "error_message",
      integerColumn "observed_at_ms", textOrNull "run_id"]
  | favicons => [textColumn "favicon_url", integerColumn "hash"]
  | geoip => [textOrNull "country_code", textOrNull "country_name", textOrNull "region",
      textOrNull "city", realOrNull "latitude", realOrNull "longitude", textOrNull "postal_code",
      textOrNull "timezone", integerOrNull "asn", textOrNull "asn_org"]
  | whois => [integerOrNull "creation_date_ms", integerOrNull "expiration_date_ms",
      integerOrNull "updated_date_ms", textOrNull "registrar", textOrNull "registrant_country",
      textOrNull "registrant_org", textOrNull "whois_statuses", textOrNull "nameservers_json",
      textOrNull "raw_response"]

/-- The names of the columns of a table, without its ids. -/
def columns (table : Satellite) : List String :=
  table.schema.map Column.name

end Satellite

/-- The columns of `url_status` that a record fills. -/
def statusSchema : List Column :=
  [textColumn "initial_domain", textColumn "final_domain", textOrNull "initial_url",
    textOrNull "final_url", textColumn "ip_address", textOrNull "reverse_dns_name",
    integerColumn "http_status", textColumn "http_status_text",
    realColumn "response_time_seconds", textColumn "title", textOrNull "description",
    textOrNull "meta_robots", textOrNull "tls_version", textOrNull "ssl_cert_subject",
    textOrNull "ssl_cert_issuer", integerOrNull "ssl_cert_valid_from_ms",
    integerOrNull "ssl_cert_valid_to_ms", integerColumn "observed_at_ms",
    textOrNull "spf_record", textOrNull "dmarc_record", textOrNull "cipher_suite",
    textOrNull "key_algorithm", textOrNull "run_id", textOrNull "body_sha256",
    integerColumn "body_truncated", integerColumn "external_scripts_eligible",
    integerColumn "external_scripts_scanned", integerOrNull "content_length",
    textOrNull "http_version", textOrNull "content_type", textOrNull "canonical_url",
    textOrNull "cert_fingerprint_sha256", textOrNull "cert_serial_number",
    integerOrNull "cert_is_self_signed", integerOrNull "cert_is_wildcard",
    integerOrNull "cert_is_mismatched", textOrNull "meta_refresh_url",
    integerOrNull "hsts_max_age", integerOrNull "hsts_include_subdomains",
    integerOrNull "hsts_preload", textOrNull "mta_sts_record", textOrNull "tls_rpt_record",
    textOrNull "bimi_record", textOrNull "cdn_provider"]

/-- The columns of `url_jwt_claims`. -/
def jwtSchema : List Column :=
  [textColumn "header_json", textColumn "payload_json", textOrNull "algorithm",
    textOrNull "token_type", textOrNull "issuer", textOrNull "subject", textOrNull "audience",
    integerOrNull "expiration_ms", integerOrNull "issued_at_ms", integerOrNull "not_before_ms",
    textOrNull "jwt_id"]

/-- A row has a value of the right type in each column. -/
def Fits (schema : List Column) (row : List Value) : Prop :=
  List.Forall₂ (fun column value => column.admits value = true) schema row

section Admits

variable {α : Type} (name : String)

@[simp] theorem admits_text (value : String) : (textColumn name).admits (.text value) = true := rfl

@[simp] theorem admits_integer (value : ℤ) :
    (integerColumn name).admits (.integer value) = true := rfl

@[simp] theorem admits_bool (value : Bool) : (integerColumn name).admits (.ofBool value) = true :=
  rfl

@[simp] theorem admits_real (value : F64) : (realColumn name).admits (.real value) = true := rfl

@[simp] theorem admits_boolOrNull (value : Option Bool) :
    (integerOrNull name).admits (.ofOption .ofBool value) = true := by
  cases value <;> rfl

@[simp] theorem admits_textOrNull_text (value : String) :
    (textOrNull name).admits (.text value) = true := rfl

@[simp] theorem admits_integerOrNull_integer (value : ℤ) :
    (integerOrNull name).admits (.integer value) = true := rfl

@[simp] theorem admits_textOrNull (bind : α → String) (value : Option α) :
    (textOrNull name).admits (.ofOption (fun found => .text (bind found)) value) = true := by
  cases value <;> rfl

@[simp] theorem admits_textOrNull_ofOption (value : Option String) :
    (textOrNull name).admits (.ofOption .text value) = true := by
  cases value <;> rfl

@[simp] theorem admits_integerOrNull (bind : α → ℤ) (value : Option α) :
    (integerOrNull name).admits (.ofOption (fun found => .integer (bind found)) value) = true := by
  cases value <;> rfl

@[simp] theorem admits_integerOrNull_ofOption (value : Option ℤ) :
    (integerOrNull name).admits (.ofOption .integer value) = true := by
  cases value <;> rfl

@[simp] theorem admits_realOrNull (value : Option F64) :
    (realOrNull name).admits (.ofOption .real value) = true := by
  cases value <;> rfl

@[simp] theorem admits_vecToJsonOrNull (write : WriteStrings) (values : List String) :
    (textOrNull name).admits (vecToJsonOrNull write values) = true := by
  unfold vecToJsonOrNull
  split <;> rfl

end Admits

/-! ## Facts -/

/-- The facts of any record have the declared types. -/
theorem fits_statusRow (record : UrlRecord) : Fits statusSchema (statusRow record) := by
  simp [Fits, statusSchema, statusRow, urlStatusColumns]

/-- The columns are those of the writer, in its order. -/
example : statusSchema.map Column.name = urlStatusColumns.map Prod.fst := rfl

/-! ## Writers -/

/-- A statement fills the columns of a table with rows that fit. -/
def Writes (table : Satellite) (insert : Insert) : Prop :=
  insert.columns = table.columns ∧ ∀ row ∈ insert.rows, Fits table.schema row

variable {readers : Readers} {write : WriteStrings} {record : PersistedUrlRecord}
  {table : Satellite} {insert : Insert}

/-- A batch writes its columns. -/
theorem writes_batch {α : Type} {columns : List String} {conflict : ConflictClause}
    {items : List α} {row : α → List Value}
    (hinsert : insert ∈ Insert.batch columns conflict (items.map row))
    (hcolumns : columns = table.columns) (hrow : ∀ item, Fits table.schema (row item)) :
    Writes table insert := by
  obtain ⟨rfl, -⟩ := mem_batch hinsert
  refine ⟨hcolumns, fun row hmem => ?_⟩
  obtain ⟨item, -, rfl⟩ := List.mem_map.mp hmem
  exact hrow item

/-- The statements of the core writers fit. -/
theorem writes_coreInserts (h : insert ∈ coreInserts readers record table) :
    Writes table insert := by
  cases table with
  | technologies =>
      exact writes_batch h rfl fun tech => by simp [Fits, Satellite.schema]
  | nameservers | txtRecords | mxRecords | securityHeaders | httpHeaders | certificateOids
  | certificateSans | cnameRecords | ipv6Addresses | caaRecords | cspDomains | cookies
  | resourceHints | scriptHosts =>
      exact writes_batch h rfl fun item => by simp [Fits, Satellite.schema]
  | redirectChain =>
      obtain ⟨rfl, -⟩ := mem_batch h
      refine ⟨rfl, fun row hrow => ?_⟩
      obtain ⟨index, hindex, rfl⟩ := List.mem_mapIdx.mp hrow
      simp [Fits, Satellite.schema]
  | securityTxt =>
      cases hdata : record.securityTxt with
      | none => simp [coreInserts, hdata] at h
      | some data =>
          simp only [coreInserts, hdata, Option.map_some, Option.getD_some, insertSecurityTxt,
            List.mem_singleton] at h
          subst h
          exact ⟨rfl, by simp [Fits, Satellite.schema]⟩
  | robotsTxt =>
      cases hdata : record.robotsTxt with
      | none => simp [coreInserts, hdata] at h
      | some data =>
          simp only [coreInserts, hdata, Option.map_some, Option.getD_some, insertRobotsTxtRow,
            List.mem_singleton] at h
          subst h
          exact ⟨rfl, by simp [Fits, Satellite.schema]⟩
  | robotsDirectives =>
      cases hdata : record.robotsTxt with
      | none => simp [coreInserts, hdata] at h
      | some data =>
          simp only [coreInserts, hdata, Option.map_some, Option.getD_some] at h
          exact writes_batch h rfl fun item => by simp [Fits, Satellite.schema]
  | analyticsIds | structuredData | socialMediaLinks | contactLinks | exposedSecrets
  | partialFailures | favicons | geoip | whois => cases h

/-- Structured data writes its columns. -/
theorem writes_structuredRows {dataType : String} {pairs : List (String × String)}
    (h : insert ∈ insertStructuredRows dataType pairs) : Writes .structuredData insert :=
  writes_batch h rfl fun pair => by simp [Fits, Satellite.schema]

/-- The statements of the enrichment writers fit. -/
theorem writes_enrichmentInserts
    (h : insert ∈ (enrichmentInserts write record table).getD []) : Writes table insert := by
  have hlist : ∀ {α : Type} {items : List α} {writer : List α → List Insert},
      insert ∈ (nonempty items writer).getD [] → insert ∈ writer items := by
    intro α items writer hinsert
    unfold nonempty at hinsert
    split at hinsert
    · cases hinsert
    · exact hinsert
  cases table with
  | geoip =>
      cases hdata : record.geoip with
      | none => simp [enrichmentInserts, hdata] at h
      | some geoip =>
          simp only [enrichmentInserts, hdata, Option.map_some, Option.getD_some, insertGeoipData,
            List.mem_singleton] at h
          subst h
          exact ⟨rfl, by simp [Fits, Satellite.schema]⟩
  | structuredData =>
      cases hdata : record.structuredData with
      | none => simp [enrichmentInserts, hdata] at h
      | some data =>
          simp only [enrichmentInserts, hdata, Option.map_some, Option.getD_some,
            insertStructuredData, List.mem_append] at h
          obtain ((h | h) | h) | h := h <;> exact writes_structuredRows h
  | socialMediaLinks | contactLinks | analyticsIds =>
      have hmem := hlist h
      exact writes_batch hmem rfl fun item => by simp [Fits, Satellite.schema]
  | exposedSecrets =>
      obtain ⟨secret, -, rfl⟩ := List.mem_map.mp (hlist h)
      exact ⟨rfl, by simp [Fits, Satellite.schema, insertExposedSecret]⟩
  | favicons =>
      cases hdata : record.favicon with
      | none => simp [enrichmentInserts, hdata] at h
      | some favicon =>
          simp only [enrichmentInserts, hdata, Option.map_some, Option.getD_some,
            insertFaviconData, List.mem_singleton] at h
          subst h
          exact ⟨rfl, by simp [Fits, Satellite.schema]⟩
  | whois =>
      cases hdata : record.whois with
      | none => simp [enrichmentInserts, hdata] at h
      | some whois =>
          simp only [enrichmentInserts, hdata, Option.map_some, Option.getD_some, insertWhoisData,
            List.mem_singleton] at h
          subst h
          exact ⟨rfl, by simp [Fits, Satellite.schema]⟩
  | technologies | nameservers | txtRecords | mxRecords | securityHeaders | httpHeaders
  | certificateOids | redirectChain | certificateSans | cnameRecords | ipv6Addresses | caaRecords
  | cspDomains | cookies | resourceHints | scriptHosts | securityTxt | robotsTxt
  | robotsDirectives | partialFailures => cases h

/-! ## Stored rows -/

/-- Merging adds no row that was not inserted. -/
theorem mem_of_mem_mergedRows {inserts : List Insert} {start : List (List Value)}
    {row : List Value} (h : row ∈ mergedRows inserts start) :
    row ∈ start ∨ ∃ insert ∈ inserts, row ∈ insert.rows := by
  induction inserts generalizing start with
  | nil => exact .inl h
  | cons first rest ih =>
      rw [mergedRows, List.foldl_cons, ← mergedRows] at h
      rcases ih h with h | ⟨insert, hinsert, hrow⟩
      · rcases OnConflict.mem_of_mem_foldl_merge h with h | h
        · exact .inl h
        · exact .inr ⟨first, List.mem_cons_self, h⟩
      · exact .inr ⟨insert, List.mem_cons_of_mem _ hinsert, hrow⟩

/-- The core rows fit the schema. -/
theorem fits_coreRows {row : List Value} (h : row ∈ coreRows readers record table) :
    Fits table.schema row := by
  rcases mem_of_mem_mergedRows h with h | ⟨insert, hinsert, hrow⟩
  · cases h
  · exact (writes_coreInserts hinsert).2 row hrow

/-- The enrichment rows fit the schema. -/
theorem fits_enrichmentRows {row : List Value} (h : row ∈ enrichmentRows write record table) :
    Fits table.schema row := by
  by_cases hpartial : table = .partialFailures
  · subst hpartial
    obtain ⟨failure, -, rfl⟩ := List.mem_map.mp h
    simp [Fits, Satellite.schema, partialFailureRow]
  · have hrows : enrichmentRows write record table = recordRows write record table := by
      cases table <;> first | rfl | exact absurd rfl hpartial
    rw [hrows] at h
    rcases mem_of_mem_mergedRows h with h | ⟨insert, hinsert, hrow⟩
    · cases h
    · exact (writes_enrichmentInserts hinsert).2 row hrow

/-- The claims fit the schema. -/
theorem fits_recordClaims {claim : List Value × List Value} (h : claim ∈ recordClaims record) :
    Fits jwtSchema claim.2 := by
  obtain ⟨secret, -, hjwt⟩ := List.mem_filterMap.mp (OnConflict.mem_of_mem_mergeAll h)
  obtain ⟨jwt, -, rfl⟩ := Option.map_eq_some_iff.mp hjwt
  simp [Fits, jwtSchema, jwtValues]

end DomainStatus.Storage
