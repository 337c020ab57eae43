import DomainStatus.Lib.Json
import DomainStatus.Storage.Enrichment

/-!
# The core transaction

The first transaction of a record, after `insert_url_record_impl` of
`src/storage/insert/url/upsert.rs` and the writers under `src/storage/insert/url/satellite`. It
upserts the row of `url_status` and replaces the rows of the core tables. When a writer fails, the
failure is noted and the transaction goes on.
-/

namespace DomainStatus.Storage

open Fingerprint

/-- What the code calls outside of it: the JSON reader, and lower case after Unicode. -/
structure Readers where
  json : String → Option Json
  toLowercase : String → String

/-! ## DNS records -/

/-- `starts_with_tag`. -/
def startsWithTag (txt tag : String) : Bool :=
  match Text.getTo (Text.len tag.toList) (Text.trim txt).toList with
  | none => false
  | some start => Text.eqIgnoreAsciiCase (String.ofList start) tag

/-- The type of a TXT record, told by the tag that it starts with or by a word in it. -/
def detectTxtType (readers : Readers) (txt : String) : String :=
  if startsWithTag txt "v=spf1" then "SPF"
  else if startsWithTag txt "v=dmarc1" then "DMARC"
  else if startsWithTag txt "v=stsv1" then "MTA-STS"
  else if startsWithTag txt "v=tlsrptv1" then "TLS-RPT"
  else if startsWithTag txt "v=bimi1" then "BIMI"
  else if ["google-site-verification", "ms-verify", "facebook-domain-verification",
      "atlassian-domain-verification"].any fun mark =>
        Text.contains (readers.toLowercase txt).toList mark.toList then "VERIFICATION"
  else "OTHER"

/-- `parse_json_array`. -/
def parseJsonArray (readers : Readers) (text : Option String) : Option (List String) := do
  let text ← text
  if text = "" then none else (← readers.json text).asStrings

/-- `as i32`. -/
def toI32 (value : ℤ) : ℤ :=
  Int.bmod value (2 ^ 32)

/-- The priority and the name of a mail exchange in one text. -/
def parseMxRecord (mx : String) : Option (ℤ × String) :=
  match Text.splitWhitespace mx.toList with
  | [] => none
  | first :: rest =>
      match Text.parseI32 first with
      | none => some (0, String.ofList first)
      | some priority => rest.head?.map fun host => (priority, String.ofList host)

/-- The priority and the host of an object for an MX record. -/
def mxObject (value : Json) : Option (ℤ × String) := do
  let priority ← (value.get "priority").bind Json.asI64
  let hostname ← (value.get "hostname").bind Json.asStr
  some (toI32 priority, hostname)

/-- `parse_mx_json_array`: objects if there are any, and else texts. -/
def parseMxJsonArray (readers : Readers) (text : Option String) : Option (List (ℤ × String)) := do
  let text ← text
  if text = "" then none
  else
    let value ← readers.json text
    let objects := (value.asArray.getD []).filterMap mxObject
    let texts := (value.asStrings.getD []).filterMap parseMxRecord
    if objects ≠ [] then some objects else if texts ≠ [] then some texts else none

/-! ## Writers -/

/-- Technologies, each name and version once. -/
def insertTechnologies (technologies : List DetectedTechnology) : List Insert :=
  let deduped := technologies.foldl (fun kept tech =>
    if kept.any fun other => other.name = tech.name ∧ other.version = tech.version then kept
    else kept ++ [tech]) []
  Insert.batch ["technology_name", "technology_version", "technology_category", "is_implied",
      "detection_source"]
    (.doNothing ["technology_name", "technology_version"])
    (deduped.map fun tech => [.text tech.name, .ofOption .text tech.version,
      .ofOption .text tech.category, .ofBool tech.isImplied, .ofOption .text tech.detectionSource])

/-- `insert_single_column_batch`. -/
def insertSingleColumnBatch (column : String) (values : List String) : List Insert :=
  Insert.batch [column] (.doNothing [column]) (values.map fun value => [.text value])

/-- The name servers of a JSON list. -/
def insertNameservers (readers : Readers) (json : Option String) : List Insert :=
  insertSingleColumnBatch "nameserver" ((parseJsonArray readers json).getD [])

/-- The TXT records of a JSON list that are not blank, each with its type. -/
def insertTxtRecords (readers : Readers) (json : Option String) : List Insert :=
  Insert.batch ["record_value", "record_type"] (.doNothing ["record_type", "record_value"])
    ((((parseJsonArray readers json).getD []).filter fun txt => Text.trim txt ≠ "").map fun txt =>
      [.text txt, .text (detectTxtType readers txt)])

/-- The mail exchanges of a JSON list. -/
def insertMxRecords (readers : Readers) (json : Option String) : List Insert :=
  Insert.batch ["priority", "mail_exchange"] (.doNothing ["priority", "mail_exchange"])
    (((parseMxJsonArray readers json).getD []).map fun mx => [.integer mx.1, .text mx.2])

/-- `insert_security_headers` and `insert_http_headers`. -/
def insertHeaders (headers : HashMap String String) : List Insert :=
  Insert.batch ["header_name", "header_value"] (.doUpdate ["header_name"])
    ((HashMap.pairs headers).map fun header => [.text header.1, .text header.2])

/-- The OIDs of a certificate. -/
def insertOids (oids : List String) : List Insert :=
  insertSingleColumnBatch "oid" oids

/-- The hops of the redirect chain, numbered from one. -/
def insertRedirectChain (chain : List (String × UInt16)) : List Insert :=
  Insert.batch ["sequence_order", "redirect_url", "http_status"] (.doUpdate ["sequence_order"])
    (chain.mapIdx fun index hop =>
      [.integer (toI32 (index + 1)), .text hop.1, .integer hop.2.toNat])

/-- The names of a certificate. -/
def insertCertificateSans (names : List String) : List Insert :=
  insertSingleColumnBatch "san_value" names

/-- The aliases of a JSON list. -/
def insertCnameRecords (readers : Readers) (json : Option String) : List Insert :=
  insertSingleColumnBatch "cname_target" ((parseJsonArray readers json).getD [])

/-- The addresses of a JSON list. -/
def insertIpv6Addresses (readers : Readers) (json : Option String) : List Insert :=
  insertSingleColumnBatch "ipv6_address" ((parseJsonArray readers json).getD [])

/-- The CAA records of a JSON list. A missing field has its default. -/
def insertCaaRecords (readers : Readers) (json : Option String) : List Insert :=
  Insert.batch ["flag", "tag", "value"] (.doUpdate ["tag", "value"])
    ((((json.bind readers.json).bind Json.asArray).getD []).map fun record =>
      [.integer (toI32 (((record.get "flag").bind Json.asU64).getD 0)),
        .text (((record.get "tag").bind Json.asStr).getD ""),
        .text (((record.get "value").bind Json.asStr).getD "")])

/-- The hosts of a policy with their directives. -/
def insertCspDomains (domains : List (String × String × Option String)) : List Insert :=
  Insert.batch ["directive", "fqdn", "registrable_domain"] (.doNothing ["directive", "fqdn"])
    (domains.map fun (directive, fqdn, registrable) =>
      [.text directive, .text fqdn, .ofOption .text registrable])

/-- The cookies of a response. A later cookie replaces an earlier one with its name. -/
def insertCookies (cookies : List CookieInfo) : List Insert :=
  Insert.batch ["cookie_name", "secure", "http_only", "same_site", "domain", "path"]
    (.doUpdate ["cookie_name"])
    (cookies.map fun cookie => [.text cookie.name, .ofBool cookie.secure, .ofBool cookie.httpOnly,
      .ofOption .text cookie.sameSite, .ofOption .text cookie.domain, .ofOption .text cookie.path])

/-- The resource hints of a page, with their types in lower case. -/
def insertResourceHints (hints : List (String × String)) : List Insert :=
  Insert.batch ["hint_type", "href"] (.doNothing ["hint_type", "href"])
    (hints.map fun hint => [.text (Text.toAsciiLowercase hint.1), .text hint.2])

/-- The hosts of the scripts. -/
def insertScriptHosts (hosts : List ScriptHostInfo) : List Insert :=
  Insert.batch ["host", "registrable_domain", "is_first_party"] (.doUpdate ["host"])
    (hosts.map fun host =>
      [.text host.host, .ofOption .text host.registrableDomain, .ofBool host.isFirstParty])

/-- The fields of `security.txt`, those with several values one below the other. -/
def insertSecurityTxt (data : SecurityTxtData) : List Insert :=
  let join (lines : List String) : Value := .text ("\n".intercalate lines)
  [{ columns := ["source_url", "http_status", "contacts", "expires", "encryption",
       "acknowledgments", "preferred_languages", "canonical", "policy", "hiring", "raw_body"]
     conflict := .doUpdate []
     rows := [[.text data.sourceUrl, .integer data.httpStatus.toNat, join data.contacts,
       .ofOption .text data.expires, join data.encryption, join data.acknowledgments,
       .ofOption .text data.preferredLanguages, join data.canonical, join data.policy,
       join data.hiring, .text data.rawBody]] }]

/-- The row for a `robots.txt`. -/
def insertRobotsTxtRow (data : RobotsTxtData) : List Insert :=
  [{ columns := ["http_status", "raw_body"]
     conflict := .doUpdate []
     rows := [[.integer data.httpStatus.toNat, .text data.rawBody]] }]

/-- The directives of `robots.txt`. -/
def insertRobotsDirectives (directives : List (String × String)) : List Insert :=
  Insert.batch ["directive", "value"] (.doNothing ["directive", "value"])
    (directives.map fun directive => [.text directive.1, .text directive.2])

/-- The statements that a record asks for, by their table. -/
def coreInserts (readers : Readers) (record : PersistedUrlRecord) : Satellite → List Insert
  | .technologies => insertTechnologies record.technologies
  | .nameservers => insertNameservers readers record.urlRecord.nameservers
  | .txtRecords => insertTxtRecords readers record.urlRecord.txtRecords
  | .mxRecords => insertMxRecords readers record.urlRecord.mxRecords
  | .securityHeaders => insertHeaders record.securityHeaders
  | .httpHeaders => insertHeaders record.httpHeaders
  | .certificateOids => insertOids record.oids
  | .redirectChain => insertRedirectChain record.redirectChain
  | .certificateSans => insertCertificateSans record.subjectAlternativeNames
  | .cnameRecords => insertCnameRecords readers record.cnameRecords
  | .ipv6Addresses => insertIpv6Addresses readers record.aaaaRecords
  | .caaRecords => insertCaaRecords readers record.caaRecords
  | .cspDomains => insertCspDomains record.cspDomains
  | .cookies => insertCookies record.cookies
  | .resourceHints => insertResourceHints record.resourceHints
  | .scriptHosts => insertScriptHosts record.scriptHosts
  | .securityTxt => (record.securityTxt.map insertSecurityTxt).getD []
  | .robotsTxt => (record.robotsTxt.map insertRobotsTxtRow).getD []
  | .robotsDirectives =>
      (record.robotsTxt.map fun data => insertRobotsDirectives data.directives).getD []
  | _ => []

/-! ## The transaction -/

/-- What a call knows when its core transaction has committed, and what it counts afterwards. -/
structure UrlUpsertOutcome where
  id : ℕ
  inserted : Bool
  satelliteInsertFailures : List SatelliteWriteFailure
  partialFailuresInserted : ℕ := 0
  satelliteInsertErrorsInserted : ℕ := 0

/-- `upsert_url_status_row`: the number of the row, and whether it is a new one. -/
def upsertUrlStatusRow (faults : Faults) (record : UrlRecord) (table : StatusTable) :
    Except String ((ℕ × Bool) × StatusTable) :=
  match faults .insertUrlStatus with
  | some message => .error (sqlError message)
  | none =>
      match table.insert (statusRow record) with
      | (some id, table) => .ok ((id, true), table)
      | (none, table) =>
          match faults .updateUrlStatus with
          | some message => .error (sqlError message)
          | none =>
              match table.update record with
              | (some id, table) => .ok ((id, false), table)
              | (none, _) => .error (sqlError
                  "no rows returned by a query that expected to return at least one row")

/-- A writer of several tables. It ends with the first statement that fails. -/
def runWriter (faults : Faults) (urlStatusId : ℕ) (inserts : Satellite → List Insert) :
    List Satellite → Database → Except String Unit × Database
  | [], db => (.ok (), db)
  | table :: rest, db =>
      match runInserts faults table urlStatusId 0 (inserts table) db with
      | (.error message, db) => (.error message, db)
      | (.ok (), db) => runWriter faults urlStatusId inserts rest db

/-- The writers, by the tables they write. Only `insert_robots_txt` writes two. -/
def coreWriters : List (Satellite × List Satellite) :=
  [.technologies, .nameservers, .txtRecords, .mxRecords, .securityHeaders, .httpHeaders,
    .certificateOids, .redirectChain, .certificateSans, .cnameRecords, .ipv6Addresses,
    .caaRecords, .cspDomains, .cookies, .resourceHints, .scriptHosts, .securityTxt].map
      (fun table => (table, [table])) ++
    [(.robotsTxt, [.robotsTxt, .robotsDirectives])]

/-- Runs the writers one after the other, and notes those that fail under the name of their first
table. -/
def writeCoreSatellites (faults : Faults) (urlStatusId : ℕ) (inserts : Satellite → List Insert) :
    List (Satellite × List Satellite) → List SatelliteWriteFailure → Database →
      List SatelliteWriteFailure × Database
  | [], failures, db => (failures, db)
  | (label, tables) :: rest, failures, db =>
      match runWriter faults urlStatusId inserts tables db with
      | (.ok (), db) => writeCoreSatellites faults urlStatusId inserts rest failures db
      | (.error message, db) =>
          writeCoreSatellites faults urlStatusId inserts rest
            (failures ++ [{ table := label.name, message := message }]) db

/-- `insert_url_record_impl`. Without a commit the database stays as it was. -/
def insertUrlRecordImpl (readers : Readers) (faults : Faults) (db : Database)
    (record : PersistedUrlRecord) : Except String (UrlUpsertOutcome × Database) :=
  match faults .begin with
  | some message => .error (sqlError message)
  | none =>
      match upsertUrlStatusRow faults record.urlRecord db.urlStatus with
      | .error message => .error message
      | .ok ((id, inserted), urlStatus) =>
          let (failures, db) :=
            match deleteChildRows faults id Satellite.core { db with urlStatus := urlStatus } with
            | (.ok (), db) =>
                writeCoreSatellites faults id (coreInserts readers record) coreWriters [] db
            | (.error message, db) =>
                ([{ table := "core_satellites"
                    message := "Failed to clean stale core satellite rows: " ++ message }], db)
          match faults .commit with
          | some message => .error (sqlError message)
          | none =>
              .ok ({ id := id, inserted := inserted, satelliteInsertFailures := failures }, db)

end DomainStatus.Storage
