import DomainStatus.Lib.Tables
import DomainStatus.Storage.Models

/-!
# The table of facts

The columns of `url_status` and its unique key, after `src/storage/insert/url/columns.rs`. A row is
inserted unless its key is taken, and the row with the key is updated then. Read
`update_withKey` first: an update makes the row that an insertion would have made.
-/

namespace DomainStatus.Storage

/-- What a column holds. -/
inductive Value where
  | null
  | integer (value : ℤ)
  | real (value : F64)
  | text (value : String)
  deriving DecidableEq

namespace Value

/-- An optional value, which is `NULL` when it is missing. -/
def ofOption {α : Type} (bind : α → Value) : Option α → Value
  | none => null
  | some value => bind value

/-- `bool` is stored as a number. -/
def ofBool (value : Bool) : Value :=
  integer (if value then 1 else 0)

end Value

/-- `URL_STATUS_COLUMN_DEFS`: the columns with the values that a record has for them. -/
def urlStatusColumns : List (String × (UrlRecord → Value)) :=
  [("initial_domain", fun r => .text r.initialDomain),
    ("final_domain", fun r => .text r.finalDomain),
    ("initial_url", fun r => .ofOption .text r.initialUrl),
    ("final_url", fun r => .ofOption .text r.finalUrl),
    ("ip_address", fun r => .text r.ipAddress),
    ("reverse_dns_name", fun r => .ofOption .text r.reverseDnsName),
    ("http_status", fun r => .integer r.status.toNat),
    ("http_status_text", fun r => .text r.statusDesc),
    ("response_time_seconds", fun r => .real r.responseTime),
    ("title", fun r => .text r.title),
    ("description", fun r => .ofOption .text r.description),
    ("meta_robots", fun r => .ofOption .text r.metaRobots),
    ("tls_version", fun r => .ofOption (fun version => .text version.asStr) r.tlsVersion),
    ("ssl_cert_subject", fun r => .ofOption .text r.sslCertSubject),
    ("ssl_cert_issuer", fun r => .ofOption .text r.sslCertIssuer),
    ("ssl_cert_valid_from_ms",
      fun r => .ofOption (fun date => .integer date.timestampMillis) r.sslCertValidFrom),
    ("ssl_cert_valid_to_ms",
      fun r => .ofOption (fun date => .integer date.timestampMillis) r.sslCertValidTo),
    ("observed_at_ms", fun r => .integer r.timestamp),
    ("spf_record", fun r => .ofOption .text r.spfRecord),
    ("dmarc_record", fun r => .ofOption .text r.dmarcRecord),
    ("cipher_suite", fun r => .ofOption .text r.cipherSuite),
    ("key_algorithm", fun r => .ofOption (fun algorithm => .text algorithm.asStr) r.keyAlgorithm),
    ("run_id", fun r => .ofOption .text r.runId),
    ("body_sha256", fun r => .ofOption .text r.bodySha256),
    ("body_truncated", fun r => .ofBool r.bodyTruncated),
    ("external_scripts_eligible", fun r => .integer r.externalScriptsEligible.toNat),
    ("external_scripts_scanned", fun r => .integer r.externalScriptsScanned.toNat),
    ("content_length", fun r => .ofOption .integer r.contentLength),
    ("http_version", fun r => .ofOption .text r.httpVersion),
    ("content_type", fun r => .ofOption .text r.contentType),
    ("canonical_url", fun r => .ofOption .text r.canonicalUrl),
    ("cert_fingerprint_sha256", fun r => .ofOption .text r.certFingerprintSha256),
    ("cert_serial_number", fun r => .ofOption .text r.certSerialNumber),
    ("cert_is_self_signed", fun r => .ofOption .ofBool r.certIsSelfSigned),
    ("cert_is_wildcard", fun r => .ofOption .ofBool r.certIsWildcard),
    ("cert_is_mismatched", fun r => .ofOption .ofBool r.certIsMismatched),
    ("meta_refresh_url", fun r => .ofOption .text r.metaRefreshUrl),
    ("hsts_max_age", fun r => .ofOption .integer r.hstsMaxAge),
    ("hsts_include_subdomains", fun r => .ofOption .ofBool r.hstsIncludeSubdomains),
    ("hsts_preload", fun r => .ofOption .ofBool r.hstsPreload),
    ("mta_sts_record", fun r => .ofOption .text r.mtaStsRecord),
    ("tls_rpt_record", fun r => .ofOption .text r.tlsRptRecord),
    ("bimi_record", fun r => .ofOption .text r.bimiRecord),
    ("cdn_provider", fun r => .ofOption .text r.cdnProvider)]

/-- The row of a record. -/
def statusRow (record : UrlRecord) : List Value :=
  urlStatusColumns.map fun column => column.2 record

/-- The value of a row in a column. -/
def statusColumn (name : String) (row : List Value) : Value :=
  row.getD ((urlStatusColumns.map Prod.fst).idxOf name) .null

/-- The unique key `(run_id, initial_domain)`. With a `NULL` it is never taken. -/
def statusKey (row : List Value) : Option (Value × Value) :=
  if statusColumn "run_id" row = .null then none
  else some (statusColumn "run_id" row, statusColumn "initial_domain" row)

/-- The key of a row is taken by another one. -/
def sameStatusKey (left right : List Value) : Bool :=
  (statusKey left).isSome && statusKey left == statusKey right

/-- `UPDATE url_status SET` of all columns but `initial_domain`. -/
def updatedRow (record : UrlRecord) (row : List Value) : List Value :=
  urlStatusColumns.map fun column =>
    if column.1 = "initial_domain" then statusColumn "initial_domain" row else column.2 record

/-- The key of the row of a record. -/
theorem statusKey_statusRow (record : UrlRecord) :
    statusKey (statusRow record) =
      record.runId.map fun runId => (.text runId, .text record.initialDomain) := by
  have hrun : statusColumn "run_id" (statusRow record) = .ofOption .text record.runId := rfl
  have hdomain :
      statusColumn "initial_domain" (statusRow record) = .text record.initialDomain := rfl
  rw [statusKey, hrun, hdomain]
  cases record.runId <;> rfl

/-- Rows have the same key if they have one and it is equal. -/
theorem sameStatusKey_iff {left right : List Value} :
    sameStatusKey left right = true ↔
      (statusKey left).isSome ∧ statusKey left = statusKey right := by
  simp [sameStatusKey]

/-- Comparing with a row that has a key. -/
theorem sameStatusKey_eq {left right : List Value} {key : Value × Value}
    (h : statusKey right = some key) :
    sameStatusKey left right = decide (statusKey left = some key) := by
  rw [Bool.eq_iff_iff, sameStatusKey_iff, h, decide_eq_true_eq]
  exact ⟨And.right, fun hleft => ⟨by rw [hleft]; rfl, hleft⟩⟩

/-- Only the keys matter to the comparison. -/
theorem sameStatusKey_congr {left right newLeft newRight : List Value}
    (hleft : statusKey newLeft = statusKey left) (hright : statusKey newRight = statusKey right) :
    sameStatusKey newLeft newRight = sameStatusKey left right := by
  rw [sameStatusKey, sameStatusKey, hleft, hright]

/-- An update of the row with the key of a record makes the row of the record. -/
theorem updatedRow_eq {record : UrlRecord} {row : List Value}
    (h : sameStatusKey row (statusRow record) = true) :
    updatedRow record row = statusRow record := by
  obtain ⟨hsome, hkey⟩ := sameStatusKey_iff.mp h
  have hdomain : statusColumn "initial_domain" row = .text record.initialDomain := by
    rw [statusKey_statusRow] at hkey
    rw [hkey, Option.isSome_map] at hsome
    obtain ⟨runId, hrun⟩ := Option.isSome_iff_exists.mp hsome
    rw [hrun, Option.map_some, statusKey] at hkey
    split at hkey
    · cases hkey
    · rw [Option.some.injEq, Prod.mk.injEq] at hkey
      exact hkey.2
  rw [updatedRow, hdomain]
  rfl

/-- An update keeps the keys. -/
theorem statusKey_update (record : UrlRecord) (row : List Value) :
    statusKey (if sameStatusKey row (statusRow record) then updatedRow record row else row) =
      statusKey row := by
  split
  case isTrue hsame => rw [updatedRow_eq hsame, (sameStatusKey_iff.mp hsame).2]
  case isFalse => rfl

/-- The rows of `url_status`. Keys are unique. -/
structure StatusTable extends Table (List Value) where
  unique : rows.Pairwise fun first second => sameStatusKey first.value second.value = false

namespace StatusTable

instance : EmptyCollection StatusTable where
  emptyCollection := { (∅ : Table (List Value)) with unique := List.Pairwise.nil }

/-- `INSERT INTO url_status … ON CONFLICT(run_id, initial_domain) DO NOTHING RETURNING id`. -/
def insert (table : StatusTable) (value : List Value) : Option ℕ × StatusTable :=
  if h : table.rows.any (fun row => sameStatusKey row.value value) = true then (none, table)
  else
    (some table.nextId,
      { table.toTable.push 0 value with
        unique := by
          simp only [List.any_eq_true, not_exists, not_and, Bool.not_eq_true] at h
          refine List.pairwise_append.mpr ⟨table.unique, List.pairwise_singleton _ _, ?_⟩
          intro row hrow new hnew
          rw [List.mem_singleton.mp hnew]
          exact h row hrow })

/-- `UPDATE url_status SET … WHERE run_id = ? AND initial_domain = ? RETURNING id`. -/
def update (table : StatusTable) (record : UrlRecord) : Option ℕ × StatusTable :=
  ((table.rows.find? fun row => sameStatusKey row.value (statusRow record)).map Row.id,
    { table.toTable.mapValues fun row =>
        if sameStatusKey row.value (statusRow record) then updatedRow record row.value
        else row.value with
      unique := by
        refine List.pairwise_map.mpr (table.unique.imp fun {first second} hne => ?_)
        rwa [sameStatusKey_congr (statusKey_update record _) (statusKey_update record _)] })

/-- The rows with a key. -/
def withKey (table : StatusTable) (key : Value × Value) : List (Row (List Value)) :=
  table.rows.filter fun row => statusKey row.value = some key

variable {table : StatusTable} {key : Value × Value}

/-- A key has one row at most. -/
theorem length_withKey_le (table : StatusTable) (key : Value × Value) :
    (table.withKey key).length ≤ 1 := by
  have hpairwise := table.unique.filter fun row => statusKey row.value = some key
  match hrows : table.withKey key with
  | [] => exact Nat.zero_le 1
  | [row] => exact Nat.le_refl 1
  | first :: second :: rest =>
      have hfirst := List.mem_filter.mp (by simp [hrows] : first ∈ table.withKey key)
      have hsecond := List.mem_filter.mp (by simp [hrows] : second ∈ table.withKey key)
      rw [← withKey, hrows] at hpairwise
      have hne := List.rel_of_pairwise_cons hpairwise List.mem_cons_self
      rw [sameStatusKey_eq (of_decide_eq_true hsecond.2), hfirst.2] at hne
      cases hne

/-- A row is inserted when its key is not taken. -/
theorem insert_withKey (table : StatusTable) {value : List Value}
    (hkey : statusKey value = some key) :
    match table.insert value with
    | (some id, after) => table.withKey key = [] ∧ after.withKey key = [⟨id, 0, value⟩]
    | (none, after) => table.withKey key ≠ [] ∧ after = table := by
  by_cases h : table.rows.any (fun row => sameStatusKey row.value value) = true
  · have hinsert : table.insert value = (none, table) := dif_pos h
    rw [hinsert]
    refine ⟨fun hnil => ?_, rfl⟩
    obtain ⟨row, hrow, hclash⟩ := List.any_eq_true.mp h
    rw [sameStatusKey_eq hkey] at hclash
    exact List.filter_eq_nil_iff.mp hnil row hrow hclash
  · have hnil : table.withKey key = [] := by
      rw [withKey, List.filter_eq_nil_iff]
      intro row hrow hclash
      exact h (List.any_eq_true.mpr ⟨row, hrow, by rwa [sameStatusKey_eq hkey]⟩)
    unfold insert
    rw [dif_neg h]
    refine ⟨hnil, ?_⟩
    simp only [withKey, Table.push, List.filter_append] at hnil ⊢
    simp [hnil, hkey]

/-- The row with the key of a record is updated to the row of the record. -/
theorem update_withKey {record : UrlRecord} {row : Row (List Value)}
    (hkey : statusKey (statusRow record) = some key) (h : table.withKey key = [row]) :
    (table.update record).1 = some row.id ∧
      (table.update record).2.withKey key = [{ row with value := statusRow record }] := by
  have hrow := List.mem_filter.mp (by simp [h] : row ∈ table.withKey key)
  have hsame : ∀ old : Row (List Value), sameStatusKey old.value (statusRow record) =
      decide (statusKey old.value = some key) := fun old => sameStatusKey_eq hkey
  constructor
  · rw [update, ← List.head?_filter]
    simp only [hsame]
    rw [← withKey, h]
    rfl
  · simp only [withKey, update, Table.mapValues, List.filter_map, Function.comp_def,
      statusKey_update]
    rw [← withKey, h, List.map_singleton, if_pos (hsame row ▸ hrow.2),
      updatedRow_eq (hsame row ▸ hrow.2)]

end StatusTable

end DomainStatus.Storage
