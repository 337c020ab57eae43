import DomainStatus.Export.StringLists
import DomainStatus.Lib.Sorter
import DomainStatus.Storage.Schema
import Mathlib.Data.List.Destutter
import Mathlib.Data.Prod.Lex
import Mathlib.Data.String.Basic

/-!
# Exported rows

How the exporters read a page from the database, after `src/export/row.rs`. Each list comes from
one `SELECT` with `ORDER BY` and `LIMIT 500`. Reading a column as a type that its value does not
have makes the program panic, which is `none` here. Read `buildExportRow` first.
-/

namespace DomainStatus.Export.Row

open Storage

/-! ## Columns -/

/-- `row.get` of a text. -/
def text : Value → Option String
  | .text value => some value
  | _ => none

/-- `row.get` of a number. -/
def integer : Value → Option ℤ
  | .integer value => some value
  | _ => none

/-- The column is a `REAL`. -/
def real : Value → Option F64
  | .real value => some value
  | _ => none

/-- The column is an `INTEGER` that stands for a truth value. -/
def bool (value : Value) : Option Bool :=
  (integer value).map (· ≠ 0)

/-- `row.get` of a `u16`. -/
def u16 (value : Value) : Option UInt16 :=
  (integer value).bind fun number =>
    if 0 ≤ number ∧ number < 65536 then some (UInt16.ofNat number.toNat) else none

/-- `row.get` of an `Option`. -/
def nullable {α : Type} (get : Value → Option α) : Value → Option (Option α)
  | .null => some none
  | value => (get value).map some

/-- The value of a row in a column. -/
def column (names : List String) (name : String) (row : List Value) : Value :=
  row.getD (names.idxOf name) .null

/-! ## Records -/

/-- The columns of `url_status` that an export reads. -/
structure MainRowData where
  id : ℕ
  initialDomain : String
  finalDomain : String
  initialUrl : Option String
  finalUrl : Option String
  ipAddress : String
  reverseDns : Option String
  status : UInt16
  statusDesc : String
  responseTime : F64
  title : String
  description : Option String
  metaRobots : Option String
  tlsVersion : Option String
  sslCertSubject : Option String
  sslCertIssuer : Option String
  sslCertValidToMs : Option ℤ
  cipherSuite : Option String
  keyAlgorithm : Option String
  spfRecord : Option String
  dmarcRecord : Option String
  mtaStsRecord : Option String
  tlsRptRecord : Option String
  bimiRecord : Option String
  hstsMaxAge : Option ℤ
  hstsIncludeSubdomains : Option Bool
  hstsPreload : Option Bool
  cdnProvider : Option String
  timestamp : ℤ
  runId : Option String
  bodySha256 : Option String
  contentLength : Option ℤ
  httpVersion : Option String
  contentType : Option String
  canonicalUrl : Option String
  certFingerprintSha256 : Option String
  bodyTruncated : Bool
  deriving DecidableEq

/-- Reads the columns of a row by their names. A column of another type is an error. -/
def extractMainRowData (row : Row (List Value)) : Option MainRowData := do
  let get name := statusColumn name row.value
  some {
    id := row.id
    initialDomain := ← text (get "initial_domain")
    finalDomain := ← text (get "final_domain")
    initialUrl := ← nullable text (get "initial_url")
    finalUrl := ← nullable text (get "final_url")
    ipAddress := ← text (get "ip_address")
    reverseDns := ← nullable text (get "reverse_dns_name")
    status := ← u16 (get "http_status")
    statusDesc := ← text (get "http_status_text")
    responseTime := ← real (get "response_time_seconds")
    title := ← text (get "title")
    description := ← nullable text (get "description")
    metaRobots := ← nullable text (get "meta_robots")
    tlsVersion := ← nullable text (get "tls_version")
    sslCertSubject := ← nullable text (get "ssl_cert_subject")
    sslCertIssuer := ← nullable text (get "ssl_cert_issuer")
    sslCertValidToMs := ← nullable integer (get "ssl_cert_valid_to_ms")
    cipherSuite := ← nullable text (get "cipher_suite")
    keyAlgorithm := ← nullable text (get "key_algorithm")
    spfRecord := ← nullable text (get "spf_record")
    dmarcRecord := ← nullable text (get "dmarc_record")
    mtaStsRecord := ← nullable text (get "mta_sts_record")
    tlsRptRecord := ← nullable text (get "tls_rpt_record")
    bimiRecord := ← nullable text (get "bimi_record")
    hstsMaxAge := ← nullable integer (get "hsts_max_age")
    hstsIncludeSubdomains := ← nullable bool (get "hsts_include_subdomains")
    hstsPreload := ← nullable bool (get "hsts_preload")
    cdnProvider := ← nullable text (get "cdn_provider")
    timestamp := ← integer (get "observed_at_ms")
    runId := ← nullable text (get "run_id")
    bodySha256 := ← nullable text (get "body_sha256")
    contentLength := ← nullable integer (get "content_length")
    httpVersion := ← nullable text (get "http_version")
    contentType := ← nullable text (get "content_type")
    canonicalUrl := ← nullable text (get "canonical_url")
    certFingerprintSha256 := ← nullable text (get "cert_fingerprint_sha256")
    bodyTruncated := ← bool (get "body_truncated") }

/-- A row of `url_txt_records`. -/
structure TxtRecord where
  recordType : String
  recordValue : String
  deriving DecidableEq

/-- A row of `url_mx_records`. -/
structure MxRecord where
  priority : ℤ
  mailExchange : String
  deriving DecidableEq

/-- A row of `url_structured_data`. -/
structure StructuredDataEntry where
  dataType : String
  propertyName : String
  propertyValue : String
  deriving DecidableEq

/-- A row of `url_social_media_links`. -/
structure SocialMediaLink where
  platform : String
  profileUrl : String
  identifier : Option String
  deriving DecidableEq

/-- A row of `url_contact_links`. -/
structure ContactLinkRecord where
  contactType : String
  contactValue : String
  deriving DecidableEq

/-- A secret, with the claims of its token if it is one. -/
structure ExposedSecretRecord where
  secretType : String
  matchedValue : String
  severity : String
  location : String
  context : Option String
  jwtAlgorithm : Option String
  jwtIssuer : Option String
  jwtSubject : Option String
  jwtAudience : Option String
  jwtExpirationMs : Option ℤ
  jwtIssuedAtMs : Option ℤ
  jwtHeaderJson : Option String
  jwtPayloadJson : Option String
  deriving DecidableEq

/-- A partial failure, with the time that it is sorted by. -/
structure PartialFailure where
  errorType : String
  errorMessage : String
  observedAtMs : ℤ
  deriving DecidableEq

/-- A header with its value. -/
structure HttpHeader where
  name : String
  value : String
  deriving DecidableEq

/-- A row of `url_redirect_chain`. -/
structure RedirectEntry where
  redirectUrl : String
  sequenceOrder : ℤ
  httpStatus : Option ℤ
  deriving DecidableEq

/-- The row of `url_geoip`, and nothing where there is none. -/
structure GeoIpData where
  countryCode : Option String := none
  countryName : Option String := none
  region : Option String := none
  city : Option String := none
  latitude : Option F64 := none
  longitude : Option F64 := none
  asn : Option ℤ := none
  asnOrg : Option String := none
  deriving DecidableEq

/-- The row of `url_whois`, and nothing where there is none. -/
structure WhoisData where
  registrar : Option String := none
  creationDateMs : Option ℤ := none
  expirationDateMs : Option ℤ := none
  registrantCountry : Option String := none
  deriving DecidableEq

/-- A row of `url_technologies`. -/
structure TechnologyRecord where
  name : String
  version : Option String
  category : Option String
  isImplied : Bool
  detectionSource : Option String
  deriving DecidableEq

/-- A row of `url_analytics_ids`. -/
structure AnalyticsIdRecord where
  provider : String
  trackingId : String
  deriving DecidableEq

/-- A row of `url_script_hosts`. -/
structure ScriptHostRecord where
  host : String
  registrableDomain : Option String
  isFirstParty : Bool
  deriving DecidableEq

/-- A row of `url_caa_records`. -/
structure CaaRecord where
  flag : ℤ
  tag : String
  value : String
  deriving DecidableEq

/-- A row of `url_favicons`. -/
structure FaviconRecord where
  hash : ℤ
  faviconUrl : String
  deriving DecidableEq

section Decoders

variable (row : List Value)

/-- Reads a row of `url_txt_records`. -/
def txtRecord : Option TxtRecord := do
  let get := column (Satellite.columns .txtRecords)
  some {
    recordType := ← text (get "record_type" row)
    recordValue := ← text (get "record_value" row) }

/-- Reads a row of `url_mx_records`. -/
def mxRecord : Option MxRecord := do
  let get := column (Satellite.columns .mxRecords)
  some {
    priority := ← integer (get "priority" row)
    mailExchange := ← text (get "mail_exchange" row) }

/-- Reads a row of `url_structured_data`. -/
def structuredDataEntry : Option StructuredDataEntry := do
  let get := column (Satellite.columns .structuredData)
  some {
    dataType := ← text (get "data_type" row)
    propertyName := ← text (get "property_name" row)
    propertyValue := ← text (get "property_value" row) }

/-- Reads a row of `url_social_media_links`. -/
def socialMediaLink : Option SocialMediaLink := do
  let get := column (Satellite.columns .socialMediaLinks)
  some {
    platform := ← text (get "platform" row)
    profileUrl := ← text (get "profile_url" row)
    identifier := ← nullable text (get "identifier" row) }

/-- Reads a row of `url_contact_links`. -/
def contactLinkRecord : Option ContactLinkRecord := do
  let get := column (Satellite.columns .contactLinks)
  some {
    contactType := ← text (get "contact_type" row)
    contactValue := ← text (get "contact_value" row) }

/-- A row of the secrets with the row of claims that is joined to it. Without one the columns of
the claims are `NULL`. -/
def exposedSecretRecord (joined : List Value × Option (List Value)) :
    Option ExposedSecretRecord := do
  let get := column (Satellite.columns .exposedSecrets)
  let claim name := (joined.2.map (column (jwtSchema.map Column.name) name)).getD .null
  some {
    secretType := ← text (get "secret_type" joined.1)
    matchedValue := ← text (get "matched_value" joined.1)
    severity := ← text (get "severity" joined.1)
    location := ← text (get "location" joined.1)
    context := ← nullable text (get "context" joined.1)
    jwtAlgorithm := ← nullable text (claim "algorithm")
    jwtIssuer := ← nullable text (claim "issuer")
    jwtSubject := ← nullable text (claim "subject")
    jwtAudience := ← nullable text (claim "audience")
    jwtExpirationMs := ← nullable integer (claim "expiration_ms")
    jwtIssuedAtMs := ← nullable integer (claim "issued_at_ms")
    jwtHeaderJson := ← nullable text (claim "header_json")
    jwtPayloadJson := ← nullable text (claim "payload_json") }

/-- Reads a row of `url_partial_failures`. -/
def partialFailure : Option PartialFailure := do
  let get := column (Satellite.columns .partialFailures)
  some {
    errorType := ← text (get "error_type" row)
    errorMessage := ← text (get "error_message" row)
    observedAtMs := ← integer (get "observed_at_ms" row) }

/-- Also for the headers that concern security. -/
def httpHeader : Option HttpHeader := do
  let get := column (Satellite.columns .httpHeaders)
  some { name := ← text (get "header_name" row), value := ← text (get "header_value" row) }

/-- Reads a row of `url_redirect_chain`. -/
def redirectEntry : Option RedirectEntry := do
  let get := column (Satellite.columns .redirectChain)
  some {
    redirectUrl := ← text (get "redirect_url" row)
    sequenceOrder := ← integer (get "sequence_order" row)
    httpStatus := ← nullable integer (get "http_status" row) }

/-- Reads a row of `url_geoip`. -/
def geoIpData : Option GeoIpData := do
  let get := column (Satellite.columns .geoip)
  some {
    countryCode := ← nullable text (get "country_code" row)
    countryName := ← nullable text (get "country_name" row)
    region := ← nullable text (get "region" row)
    city := ← nullable text (get "city" row)
    latitude := ← nullable real (get "latitude" row)
    longitude := ← nullable real (get "longitude" row)
    asn := ← nullable integer (get "asn" row)
    asnOrg := ← nullable text (get "asn_org" row) }

/-- Reads a row of `url_whois`. -/
def whoisData : Option WhoisData := do
  let get := column (Satellite.columns .whois)
  some {
    registrar := ← nullable text (get "registrar" row)
    creationDateMs := ← nullable integer (get "creation_date_ms" row)
    expirationDateMs := ← nullable integer (get "expiration_date_ms" row)
    registrantCountry := ← nullable text (get "registrant_country" row) }

/-- Reads a row of `url_technologies`. -/
def technologyRecord : Option TechnologyRecord := do
  let get := column (Satellite.columns .technologies)
  some {
    name := ← text (get "technology_name" row)
    version := ← nullable text (get "technology_version" row)
    category := ← nullable text (get "technology_category" row)
    isImplied := ← bool (get "is_implied" row)
    detectionSource := ← nullable text (get "detection_source" row) }

/-- Reads a row of `url_analytics_ids`. -/
def analyticsIdRecord : Option AnalyticsIdRecord := do
  let get := column (Satellite.columns .analyticsIds)
  some { provider := ← text (get "provider" row), trackingId := ← text (get "tracking_id" row) }

/-- Reads a row of `url_script_hosts`. -/
def scriptHostRecord : Option ScriptHostRecord := do
  let get := column (Satellite.columns .scriptHosts)
  some {
    host := ← text (get "host" row)
    registrableDomain := ← nullable text (get "registrable_domain" row)
    isFirstParty := ← bool (get "is_first_party" row) }

/-- Reads a row of `url_caa_records`. -/
def caaRecord : Option CaaRecord := do
  let get := column (Satellite.columns .caaRecords)
  some {
    flag := ← integer (get "flag" row)
    tag := ← text (get "tag" row)
    value := ← text (get "value" row) }

/-- Reads a row of `url_favicons`. -/
def faviconRecord : Option FaviconRecord := do
  let get := column (Satellite.columns .favicons)
  some { hash := ← integer (get "hash" row), faviconUrl := ← text (get "favicon_url" row) }

/-- The only column of a table with one. -/
def singleText : Option String :=
  text (row.getD 0 .null)

end Decoders

/-! ## Queries -/

/-- The columns that a query sorts by are never `NULL`. -/
def textKey (table : Satellite) (name : String) (row : List Value) : String :=
  (text (column table.columns name row)).getD ""

/-- The number that a query orders the rows by. -/
def integerKey (table : Satellite) (name : String) (row : List Value) : ℤ :=
  (integer (column table.columns name row)).getD 0

/-- `ORDER BY` two texts. -/
def textKeys (table : Satellite) (first second : String) (row : List Value) : String ×ₗ String :=
  toLex (textKey table first row, textKey table second row)

/-- `ORDER BY … LIMIT 500`. -/
def select {α β : Type} [LinearOrder β] (sorter : Sorter) (key : α → β) (rows : List α) : List α :=
  (sorter.sort key rows).take maxExportRelatedRecords

/-- `fetch_string_list` on the rows of a table with one column. -/
def stringList (sorter : Sorter) (table : Satellite) (name : String) (rows : List (List Value)) :
    Option (String × ℕ) := do
  let items ← (select sorter (textKey table name) rows).mapM singleText
  some (String.intercalate "," items, items.length)

/-- The pairs, with a colon in each and commas between them. -/
def joinColonPairs (pairs : List (String × String)) : String :=
  ",".intercalate (pairs.map fun pair => pair.1 ++ ":" ++ pair.2)

/-- The headers that an export shows in one column. -/
def httpKeyHeaders : List String :=
  ["Content-Type", "Server", "X-Powered-By", "X-Frame-Options", "X-Content-Type-Options",
    "Strict-Transport-Security", "Content-Security-Policy"]

/-- The security headers that an export shows in one column. -/
def securityKeyHeaders : List String :=
  ["Content-Security-Policy", "X-Frame-Options", "X-Content-Type-Options",
    "Strict-Transport-Security", "Referrer-Policy", "Permissions-Policy"]

/-- `fetch_filtered_http_headers`: the allowed headers, and the number of all headers. -/
def fetchFilteredHttpHeaders (sorter : Sorter) (allowed : List String) (rows : List (List Value)) :
    Option (String × ℕ) := do
  let name := textKey .httpHeaders "header_name"
  let headers ← (select sorter name (rows.filter fun row => name row ∈ allowed)).mapM httpHeader
  some (";".intercalate (headers.map fun header => header.name ++ ":" ++ header.value), rows.length)

/-- `COALESCE(is_implied, 0) = 0`. -/
def notImplied (row : List Value) : Bool :=
  match column (Satellite.columns .technologies) "is_implied" row with
  | .null => true
  | value => value = .integer 0

/-- The rows of the secrets of a page with the claims that are joined to them. -/
def secretRows (db : Database) (urlStatusId : ℕ) : List (List Value × Option (List Value)) :=
  ((db.satellites .exposedSecrets).rowsOf urlStatusId).flatMap fun secret =>
    match db.jwtClaims.valuesOf secret.id with
    | [] => [(secret.value, none)]
    | claims => claims.map fun claim => (secret.value, some claim)

/-! ## The row -/

/-- What an export has for a page: its facts, its lists, and the texts and counts made from them. -/
structure ExportRow where
  main : MainRowData
  redirects : List RedirectEntry
  redirectCount : ℕ
  finalRedirectUrl : String
  technologiesStr : String
  technologyCategoriesStr : String
  technologyCount : ℕ
  technologies : List TechnologyRecord
  certificateSansStr : String
  certificateSanCount : ℕ
  oidsStr : String
  oidCount : ℕ
  nameserverCount : ℕ
  txtCount : ℕ
  mxCount : ℕ
  nameservers : List String
  txtRecords : List TxtRecord
  mxRecords : List MxRecord
  analyticsIdsStr : String
  analyticsCount : ℕ
  analyticsIds : List AnalyticsIdRecord
  scriptHosts : List ScriptHostRecord
  scriptHostsStr : String
  socialMediaLinksStr : String
  socialMediaCount : ℕ
  socialMediaLinks : List SocialMediaLink
  structuredDataTypesStr : String
  structuredDataCount : ℕ
  structuredDataEntries : List StructuredDataEntry
  httpHeadersStr : String
  httpHeaderCount : ℕ
  securityHeadersStr : String
  securityHeaderCount : ℕ
  allHttpHeaders : List HttpHeader
  allSecurityHeaders : List HttpHeader
  partialFailures : List PartialFailure
  geoip : GeoIpData
  whois : WhoisData
  faviconHash : Option ℤ
  faviconUrl : Option String
  contactLinks : List ContactLinkRecord
  contactLinkCount : ℕ
  exposedSecrets : List ExposedSecretRecord
  exposedSecretCount : ℕ
  cnameRecords : List String
  cnameCount : ℕ
  ipv6Addresses : List String
  ipv6Count : ℕ
  caaRecords : List CaaRecord
  caaCount : ℕ

/-- `build_export_row` on what the queries read: the rows of each table, and those of the secrets
with their claims. -/
def assemble (sorter : Sorter) (rows : Satellite → List (List Value))
    (secrets : List (List Value × Option (List Value))) (main : MainRowData)
    (includeImpliedTech : Bool) : Option ExportRow := do
  let redirects ←
    (select sorter (integerKey .redirectChain "sequence_order") (rows .redirectChain)).mapM
      redirectEntry
  let technologies ←
    (select sorter (textKey .technologies "technology_name")
      ((rows .technologies).filter fun row => includeImpliedTech || notImplied row)).mapM
        technologyRecord
  let sans ← stringList sorter .certificateSans "san_value" (rows .certificateSans)
  let oids ← stringList sorter .certificateOids "oid" (rows .certificateOids)
  let nameservers ←
    (select sorter (textKey .nameservers "nameserver") (rows .nameservers)).mapM singleText
  let txtRecords ←
    (select sorter (textKeys .txtRecords "record_type" "record_value") (rows .txtRecords)).mapM
      txtRecord
  let mxRecords ←
    (select sorter
      (fun row => toLex (integerKey .mxRecords "priority" row,
        textKey .mxRecords "mail_exchange" row)) (rows .mxRecords)).mapM mxRecord
  let cnameRecords ←
    (select sorter (textKey .cnameRecords "cname_target") (rows .cnameRecords)).mapM singleText
  let ipv6Addresses ←
    (select sorter (textKey .ipv6Addresses "ipv6_address") (rows .ipv6Addresses)).mapM singleText
  let caaRecords ←
    (select sorter (textKeys .caaRecords "tag" "value") (rows .caaRecords)).mapM caaRecord
  let analyticsIds ←
    (select sorter (textKeys .analyticsIds "provider" "tracking_id") (rows .analyticsIds)).mapM
      analyticsIdRecord
  let scriptHosts ←
    (select sorter (textKey .scriptHosts "host") (rows .scriptHosts)).mapM scriptHostRecord
  let socialMediaLinks ←
    (select sorter (textKeys .socialMediaLinks "platform" "profile_url")
      (rows .socialMediaLinks)).mapM socialMediaLink
  let structuredDataEntries ←
    (select sorter (textKeys .structuredData "data_type" "property_name")
      (rows .structuredData)).mapM structuredDataEntry
  let httpHeaders ← fetchFilteredHttpHeaders sorter httpKeyHeaders (rows .httpHeaders)
  let securityHeaders ← fetchFilteredHttpHeaders sorter securityKeyHeaders (rows .securityHeaders)
  let allHttpHeaders ←
    (select sorter (textKey .httpHeaders "header_name") (rows .httpHeaders)).mapM httpHeader
  let allSecurityHeaders ←
    (select sorter (textKey .securityHeaders "header_name") (rows .securityHeaders)).mapM httpHeader
  let partialFailures ←
    (select sorter (integerKey .partialFailures "observed_at_ms") (rows .partialFailures)).mapM
      partialFailure
  -- Each of the next three tables has at most one row for a page.
  let geoip ← (rows .geoip).head?.mapM geoIpData
  let whois ← (rows .whois).head?.mapM whoisData
  let favicon ← (rows .favicons).head?.mapM faviconRecord
  let contactLinks ←
    (select sorter (textKeys .contactLinks "contact_type" "contact_value")
      (rows .contactLinks)).mapM contactLinkRecord
  let exposedSecrets ←
    (select sorter (fun joined => textKey .exposedSecrets "secret_type" joined.1) secrets).mapM
      exposedSecretRecord
  some {
    main := main
    redirects := redirects
    redirectCount := redirects.length
    finalRedirectUrl := (redirects.getLast?.map RedirectEntry.redirectUrl).getD ""
    technologiesStr := joinColonPairs (technologies.map fun tech =>
      (tech.name, tech.version.getD ""))
    technologyCategoriesStr := ", ".intercalate (technologies.filterMap TechnologyRecord.category)
    technologyCount := technologies.length
    technologies := technologies
    certificateSansStr := sans.1
    certificateSanCount := sans.2
    oidsStr := oids.1
    oidCount := oids.2
    nameserverCount := nameservers.length
    txtCount := txtRecords.length
    mxCount := mxRecords.length
    nameservers := nameservers
    txtRecords := txtRecords
    mxRecords := mxRecords
    analyticsIdsStr := joinColonPairs (analyticsIds.map fun analytics =>
      (analytics.provider, analytics.trackingId))
    analyticsCount := analyticsIds.length
    analyticsIds := analyticsIds
    scriptHosts := scriptHosts
    scriptHostsStr := "; ".intercalate (scriptHosts.map fun host =>
      if host.isFirstParty then host.host ++ " (1p)" else host.host)
    socialMediaLinksStr := joinColonPairs (socialMediaLinks.map fun link =>
      (link.platform, link.profileUrl))
    socialMediaCount := socialMediaLinks.length
    socialMediaLinks := socialMediaLinks
    structuredDataTypesStr := ",".intercalate
      ((orderBy (structuredDataEntries.map StructuredDataEntry.dataType)).destutter (· ≠ ·))
    structuredDataCount := structuredDataEntries.length
    structuredDataEntries := structuredDataEntries
    httpHeadersStr := httpHeaders.1
    httpHeaderCount := httpHeaders.2
    securityHeadersStr := securityHeaders.1
    securityHeaderCount := securityHeaders.2
    allHttpHeaders := allHttpHeaders
    allSecurityHeaders := allSecurityHeaders
    partialFailures := partialFailures
    geoip := geoip.getD {}
    whois := whois.getD {}
    faviconHash := favicon.map FaviconRecord.hash
    faviconUrl := favicon.map FaviconRecord.faviconUrl
    contactLinks := contactLinks
    contactLinkCount := contactLinks.length
    exposedSecrets := exposedSecrets
    exposedSecretCount := exposedSecrets.length
    cnameRecords := cnameRecords
    cnameCount := cnameRecords.length
    ipv6Addresses := ipv6Addresses
    ipv6Count := ipv6Addresses.length
    caaRecords := caaRecords
    caaCount := caaRecords.length }

/-- The row for a page, read from the tables. -/
def buildExportRow (sorter : Sorter) (db : Database) (main : MainRowData)
    (includeImpliedTech : Bool) : Option ExportRow :=
  assemble sorter (fun table => (db.satellites table).valuesOf main.id) (secretRows db main.id) main
    includeImpliedTech

end DomainStatus.Export.Row
