import DomainStatus.Export.Row
import DomainStatus.Lib.Fallible
import DomainStatus.Storage.Composed
import DomainStatus.Storage.Items

/-!
# What is exported of a record

A page that comes from records is exported with the values of these records: every column of the
fact, and of each list the first 500 entries in the order of its query, with the texts and the
counts that are made of them. No column is read as a type that it does not have. Read `Exported`
and `buildExportRow_composed` first.
-/

namespace DomainStatus.Export.Row

open Storage

/-! ## Columns -/

@[simp] theorem text_text (value : String) : text (.text value) = some value := rfl

@[simp] theorem integer_integer (value : ℤ) : integer (.integer value) = some value := rfl

@[simp] theorem real_real (value : F64) : real (.real value) = some value := rfl

@[simp] theorem bool_ofBool (value : Bool) : bool (.ofBool value) = some value := by
  cases value <;> rfl

/-- A status is read back. -/
theorem u16_integer (value : UInt16) : u16 (.integer value.toNat) = some value := by
  have hlt : value.toNat < 2 ^ 16 := value.toNat_lt
  have hrange : (0 : ℤ) ≤ value.toNat ∧ (value.toNat : ℤ) < 65536 := by omega
  rw [u16, integer_integer, Option.bind_some, if_pos hrange, Int.toNat_natCast,
    UInt16.ofNat_toNat]

@[simp] theorem nullable_text (value : Option String) :
    nullable text (.ofOption .text value) = some value := by
  cases value <;> rfl

@[simp] theorem nullable_text_text (value : String) :
    nullable text (.text value) = some (some value) := rfl

@[simp] theorem nullable_text_map {α : Type} (bind : α → String) (value : Option α) :
    nullable text (.ofOption (fun found => .text (bind found)) value) =
      some (value.map bind) := by
  cases value <;> rfl

@[simp] theorem nullable_integer (value : Option ℤ) :
    nullable integer (.ofOption .integer value) = some value := by
  cases value <;> rfl

@[simp] theorem nullable_integer_integer (value : ℤ) :
    nullable integer (.integer value) = some (some value) := rfl

@[simp] theorem nullable_integer_map {α : Type} (bind : α → ℤ) (value : Option α) :
    nullable integer (.ofOption (fun found => .integer (bind found)) value) =
      some (value.map bind) := by
  cases value <;> rfl

@[simp] theorem nullable_real (value : Option F64) :
    nullable real (.ofOption .real value) = some value := by
  cases value <;> rfl

@[simp] theorem nullable_bool (value : Option Bool) :
    nullable bool (.ofOption .ofBool value) = some value := by
  rcases value with _ | _ | _ <;> rfl

@[simp] theorem nullable_null {α : Type} (get : Value → Option α) :
    nullable get .null = some none := rfl

/-- The fact of a page as it is exported. -/
def mainOf (id : ℕ) (record : UrlRecord) : MainRowData where
  id := id
  initialDomain := record.initialDomain
  finalDomain := record.finalDomain
  initialUrl := record.initialUrl
  finalUrl := record.finalUrl
  ipAddress := record.ipAddress
  reverseDns := record.reverseDnsName
  status := record.status
  statusDesc := record.statusDesc
  responseTime := record.responseTime
  title := record.title
  description := record.description
  metaRobots := record.metaRobots
  tlsVersion := record.tlsVersion.map TlsVersion.asStr
  sslCertSubject := record.sslCertSubject
  sslCertIssuer := record.sslCertIssuer
  sslCertValidToMs := record.sslCertValidTo.map Chrono.DateTime.timestampMillis
  cipherSuite := record.cipherSuite
  keyAlgorithm := record.keyAlgorithm.map KeyAlgorithm.asStr
  spfRecord := record.spfRecord
  dmarcRecord := record.dmarcRecord
  mtaStsRecord := record.mtaStsRecord
  tlsRptRecord := record.tlsRptRecord
  bimiRecord := record.bimiRecord
  hstsMaxAge := record.hstsMaxAge
  hstsIncludeSubdomains := record.hstsIncludeSubdomains
  hstsPreload := record.hstsPreload
  cdnProvider := record.cdnProvider
  timestamp := record.timestamp
  runId := record.runId
  bodySha256 := record.bodySha256
  contentLength := record.contentLength
  httpVersion := record.httpVersion
  contentType := record.contentType
  canonicalUrl := record.canonicalUrl
  certFingerprintSha256 := record.certFingerprintSha256
  bodyTruncated := record.bodyTruncated

/-- Every column of a stored fact is read back. -/
theorem extractMainRowData_statusRow {row : Row (List Value)} {record : UrlRecord}
    (h : row.value = statusRow record) :
    extractMainRowData row = some (mainOf row.id record) := by
  obtain ⟨id, parent, value⟩ := row
  obtain rfl : value = statusRow record := h
  have hcolumns : (urlStatusColumns.map fun column => statusColumn column.1 (statusRow record)) =
      urlStatusColumns.map fun column => column.2 record := rfl
  simp only [urlStatusColumns, List.map_cons, List.map_nil, List.cons.injEq, and_true] at hcolumns
  simp [extractMainRowData, hcolumns, u16_integer, mainOf]

/-! ## Lists -/

section Lists

variable {γ ρ α β : Type} [LinearOrder β]

/-- Rows that can each be read back can all be read back. -/
theorem mapM_map_eq_some {encode : γ → ρ} {decode : ρ → Option α} {result : γ → α}
    (hdecode : ∀ item, decode (encode item) = some (result item)) (items : List γ) :
    (items.map encode).mapM decode = some (items.map result) := by
  induction items with
  | nil => rfl
  | cons item rest ih => rw [List.map_cons, List.mapM_cons, hdecode, ih]; rfl

/-- Encoded items are listed and read back. -/
theorem select_mapM (sorter : Sorter) {encode : γ → ρ} {decode : ρ → Option α} {result : γ → α}
    {rawKey : ρ → β} {key : α → β} (hdecode : ∀ item, decode (encode item) = some (result item))
    (hkey : ∀ item, rawKey (encode item) = key (result item)) (items : List γ) :
    ∃ listed, (select sorter rawKey (items.map encode)).mapM decode = some listed ∧
      Sorter.Listed key maxExportRelatedRecords (items.map result) listed := by
  obtain ⟨found, hfound, sorted, hperm, hsorted, rfl⟩ :=
    (Sorter.listed_sort sorter rawKey maxExportRelatedRecords (items.map encode)).exists_items
  refine ⟨_, ?_, sorted.map result, hperm.map result, ?_, rfl⟩
  · rw [select, hfound, mapM_map_eq_some hdecode, List.map_take]
  · exact List.pairwise_map.mpr (hsorted.imp fun h => by simpa [hkey] using h)

end Lists

/-! ## Items -/

section Items

open Fetch Secrets Whois

attribute [local simp] column Satellite.columns Satellite.schema textColumn textOrNull integerColumn
  integerOrNull realOrNull

/-- A detected technology as it is exported. -/
def technologyOf (tech : Fingerprint.DetectedTechnology) : TechnologyRecord where
  name := tech.name
  version := tech.version
  category := tech.category
  isImplied := tech.isImplied
  detectionSource := tech.detectionSource

/-- A technology is read back. -/
theorem technologyRecord_technologyRow (tech : Fingerprint.DetectedTechnology) :
    technologyRecord (technologyRow tech) = some (technologyOf tech) := by
  simp [technologyRecord, technologyRow, technologyOf]

/-- Whether a technology is implied is read back. -/
theorem notImplied_technologyRow (tech : Fingerprint.DetectedTechnology) :
    notImplied (technologyRow tech) = !tech.isImplied := by
  have hcolumn : column (Satellite.columns .technologies) "is_implied" (technologyRow tech) =
      .ofBool tech.isImplied := rfl
  rw [notImplied, hcolumn]
  cases tech.isImplied <;> rfl

/-- A TXT record with the type that its text tells. -/
def txtOf (readers : Readers) (txt : String) : TxtRecord where
  recordType := detectTxtType readers txt
  recordValue := txt

/-- A TXT record is read back. -/
theorem txtRecord_txtRow (readers : Readers) (txt : String) :
    txtRecord (txtRow readers txt) = some (txtOf readers txt) := by
  simp [txtRecord, txtRow, txtOf]

/-- The keys that TXT records are ordered by. -/
theorem textKeys_record (recordType value : String) :
    textKeys .txtRecords "record_type" "record_value" [.text value, .text recordType] =
      toLex (recordType, value) := rfl

/-- TXT records are ordered by their types and texts. -/
theorem textKeys_txtRow (readers : Readers) (txt : String) :
    textKeys .txtRecords "record_type" "record_value" (txtRow readers txt) =
      toLex ((txtOf readers txt).recordType, (txtOf readers txt).recordValue) := by
  rw [txtRow, textKeys_record, txtOf]

/-- A mail exchange with its priority. -/
def mxOf (mx : ℤ × String) : MxRecord where
  priority := mx.1
  mailExchange := mx.2

/-- A mail exchange is read back. -/
theorem mxRecord_mxRow (mx : ℤ × String) : mxRecord (mxRow mx) = some (mxOf mx) := by
  simp [mxRecord, mxRow, mxOf]

/-- A hop of the redirect chain, numbered from one. -/
def hopOf (hop : (String × UInt16) × ℕ) : RedirectEntry where
  redirectUrl := hop.1.1
  sequenceOrder := toI32 (hop.2 + 1)
  httpStatus := some hop.1.2.toNat

/-- A hop is read back. -/
theorem redirectEntry_redirectRow (hop : (String × UInt16) × ℕ) :
    redirectEntry (redirectRow hop) = some (hopOf hop) := by
  simp [redirectEntry, redirectRow, hopOf]

/-- The key that hops are ordered by. -/
theorem integerKey_sequenceOrder (order : ℤ) (rest : List Value) :
    integerKey .redirectChain "sequence_order" (.integer order :: rest) = order := rfl

/-- Hops are ordered by their numbers. -/
theorem integerKey_redirectRow (hop : (String × UInt16) × ℕ) :
    integerKey .redirectChain "sequence_order" (redirectRow hop) = (hopOf hop).sequenceOrder := by
  rw [redirectRow, integerKey_sequenceOrder, hopOf]

/-- A CAA record as it is exported. -/
def caaOf (caa : Storage.CaaRecord) : CaaRecord where
  flag := caa.flag
  tag := caa.tag
  value := caa.value

/-- A CAA record is read back. -/
theorem caaRecord_caaRow (caa : Storage.CaaRecord) :
    caaRecord (caaRow caa) = some (caaOf caa) := by
  simp [caaRecord, caaRow, caaOf]

/-- A script host as it is exported. -/
def scriptHostOf (host : ScriptHostInfo) : ScriptHostRecord where
  host := host.host
  registrableDomain := host.registrableDomain
  isFirstParty := host.isFirstParty

/-- A script host is read back. -/
theorem scriptHostRecord_scriptHostRow (host : ScriptHostInfo) :
    scriptHostRecord (scriptHostRow host) = some (scriptHostOf host) := by
  simp [scriptHostRecord, scriptHostRow, scriptHostOf]

/-- A header as it is exported. -/
def headerOf (header : String × String) : HttpHeader where
  name := header.1
  value := header.2

/-- A header is read back. -/
theorem httpHeader_headerRow (header : String × String) :
    httpHeader (headerRow header) = some (headerOf header) := by
  simp [httpHeader, headerRow, headerOf]

/-- A tracking id with the name of its provider. -/
def analyticsOf (analytics : AnalyticsId) : AnalyticsIdRecord where
  provider := analytics.provider.asStr
  trackingId := analytics.id

/-- A tracking id is read back. -/
theorem analyticsIdRecord_analyticsRow (analytics : AnalyticsId) :
    analyticsIdRecord (analyticsRow analytics) = some (analyticsOf analytics) := by
  simp [analyticsIdRecord, analyticsRow, analyticsOf]

/-- A link with the name of its platform. -/
def socialOf (link : Storage.SocialMediaLink) : SocialMediaLink where
  platform := link.platform.asStr
  profileUrl := link.url
  identifier := link.identifier

/-- A link to social media is read back. -/
theorem socialMediaLink_socialRow (link : Storage.SocialMediaLink) :
    socialMediaLink (socialRow link) = some (socialOf link) := by
  simp [socialMediaLink, socialRow, socialOf]

/-- A property of the structured data as it is exported. -/
def structuredOf (property : StructuredProperty) : StructuredDataEntry where
  dataType := property.1
  propertyName := property.2.1
  propertyValue := property.2.2

/-- A property of the structured data is read back. -/
theorem structuredDataEntry_structuredRow (property : StructuredProperty) :
    structuredDataEntry (structuredRow property) = some (structuredOf property) := by
  simp [structuredDataEntry, structuredRow, structuredOf]

/-- A contact with the name of its type. -/
def contactOf (link : ContactLink) : ContactLinkRecord where
  contactType := link.contactType.asStr
  contactValue := link.value

/-- A contact is read back. -/
theorem contactLinkRecord_contactRow (link : ContactLink) :
    contactLinkRecord (contactRow link) = some (contactOf link) := by
  simp [contactLinkRecord, contactRow, contactOf]

/-- A partial failure with the name of its type. -/
def failureOf (failure : UrlPartialFailureRecord) : PartialFailure where
  errorType := failure.errorType.asStr
  errorMessage := failure.errorMessage
  observedAtMs := failure.timestamp

/-- A partial failure is read back. -/
theorem partialFailure_partialFailureRow (failure : UrlPartialFailureRecord) :
    partialFailure (partialFailureRow failure) = some (failureOf failure) := by
  simp [partialFailure, partialFailureRow, failureOf]

/-- Where a server is, as it is exported. -/
def geoipOf (geoip : GeoIpResult) : GeoIpData where
  countryCode := geoip.countryCode
  countryName := geoip.countryName
  region := geoip.region
  city := geoip.city
  latitude := geoip.latitude
  longitude := geoip.longitude
  asn := geoip.asn.map fun asn => (asn.toNat : ℤ)
  asnOrg := geoip.asnOrg

/-- Where the server is is read back. -/
theorem geoIpData_geoipRow (geoip : GeoIpResult) :
    geoIpData (geoipRow geoip) = some (geoipOf geoip) := by
  simp [geoIpData, geoipRow, geoipOf]

/-- The data of a domain, with its dates in milliseconds. -/
def whoisOf (whois : WhoisResult) : WhoisData where
  registrar := whois.registrar
  creationDateMs := whois.creationDate.map (·.timestampMillis)
  expirationDateMs := whois.expirationDate.map (·.timestampMillis)
  registrantCountry := whois.registrantCountry

/-- The data of the domain is read back. -/
theorem whoisData_whoisRow (write : WriteStrings) (whois : WhoisResult) :
    whoisData (whoisRow write whois) = some (whoisOf whois) := by
  simp [whoisData, whoisRow, whoisOf]

/-- A favicon as it is exported. -/
def faviconOf (favicon : FaviconData) : FaviconRecord where
  hash := favicon.hash
  faviconUrl := favicon.faviconUrl

/-- A favicon is read back. -/
theorem faviconRecord_faviconRow (favicon : FaviconData) :
    faviconRecord (faviconRow favicon) = some (faviconOf favicon) := by
  simp [faviconRecord, faviconRow, faviconOf]

/-- The last token that is found for a secret. -/
def jwtOf (secrets : List ExposedSecret) (secret : ExposedSecret) : Option DecodedJwt :=
  ((secrets.filter fun other => secretKeyOf other = secretKeyOf secret).filterMap
    ExposedSecret.decodedJwt).getLast?

/-- A secret with the claims of its token. -/
def secretOf (secret : ExposedSecret) (jwt : Option DecodedJwt) : ExposedSecretRecord where
  secretType := secret.secretType
  matchedValue := secret.matchedValue
  severity := SecretSeverity.asStr secret.severity
  location := secret.location
  context := some secret.context
  jwtAlgorithm := jwt.bind DecodedJwt.algorithm
  jwtIssuer := jwt.bind DecodedJwt.issuer
  jwtSubject := jwt.bind DecodedJwt.subject
  jwtAudience := jwt.bind DecodedJwt.audience
  jwtExpirationMs := jwt.bind DecodedJwt.expirationMs
  jwtIssuedAtMs := jwt.bind DecodedJwt.issuedAtMs
  jwtHeaderJson := jwt.map DecodedJwt.headerJson
  jwtPayloadJson := jwt.map DecodedJwt.payloadJson

/-- A secret is read back with its claims. -/
theorem exposedSecretRecord_secretRow (secret : ExposedSecret) (jwt : Option DecodedJwt) :
    exposedSecretRecord (secretRow secret, jwt.map jwtValues) = some (secretOf secret jwt) := by
  cases jwt <;>
    simp [exposedSecretRecord, secretRow, secretOf, jwtSchema, jwtValues]

end Items

/-! ## Secrets with their claims -/

section Secrets

open Secrets

/-- When the secrets of a page have different keys, and so have the claims, the claims of a secret
are found by its key. -/
theorem secretRows_eq {db : Database} {id : ℕ}
    (hsecrets : (((db.satellites .exposedSecrets).valuesOf id).map secretKey).Nodup)
    (hclaims : ((db.claimsOf id).map Prod.fst).Nodup) :
    secretRows db id = ((db.satellites .exposedSecrets).valuesOf id).map fun row =>
      (row, ((db.claimsOf id).find? (·.1 = secretKey row)).map Prod.snd) := by
  rw [secretRows, Table.valuesOf_eq_map, List.map_map, List.map_eq_flatMap]
  refine List.flatMap_congr fun secret hsecret => ?_
  obtain ⟨hrow, hparent⟩ := Table.mem_rowsOf.mp hsecret
  have hkey : db.secretKeys id secret.id = some (secretKey secret.value) :=
    Table.keyOf_eq_some.mpr ⟨secret, hrow, rfl, hparent, rfl⟩
  have hvalues : db.jwtClaims.valuesOf secret.id =
      (((db.claimsOf id).find? (·.1 = secretKey secret.value)).map Prod.snd).toList := by
    rw [Table.valuesOf_eq_joined hkey fun other hother => Table.keyOf_inj hsecrets hother hkey,
      ← Database.claimsOf, Table.filter_key_eq_find hclaims]
    cases (db.claimsOf id).find? (·.1 = secretKey secret.value) <;> rfl
  rw [hvalues]
  cases hfind : (db.claimsOf id).find? (·.1 = secretKey secret.value) <;> simp [hfind]

/-- The claims of a secret are those of the secrets with its key. -/
theorem claimPairs_filter (secrets : List ExposedSecret) (secret : ExposedSecret) :
    ((claimPairs secrets).filter (·.1 = secretKeyOf secret)).map Prod.snd =
      ((secrets.filter fun other => secretKeyOf other = secretKeyOf secret).filterMap
        ExposedSecret.decodedJwt).map jwtValues := by
  rw [claimPairs, List.filter_filterMap, List.map_filterMap, List.filterMap_filter,
    List.map_filterMap]
  refine List.filterMap_congr fun other _ => ?_
  cases hjwt : other.decodedJwt with
  | none => by_cases hsame : secretKeyOf other = secretKeyOf secret <;> simp [hsame]
  | some jwt =>
      by_cases hsame : secretKeyOf other = secretKeyOf secret <;> simp [hsame, Option.filter]

/-- The claims of a stored secret are those of the last token that is found for it. -/
theorem recordClaims_find (record : PersistedUrlRecord) (secret : ExposedSecret) :
    ((recordClaims record).find? (·.1 = secretKeyOf secret)).map Prod.snd =
      (jwtOf record.exposedSecrets secret).map jwtValues := by
  have hlast : recordClaims record =
      OnConflict.lastOf Prod.fst (claimPairs record.exposedSecrets) := rfl
  rw [hlast, OnConflict.find_lastOf, ← List.getLast?_map, claimPairs_filter, List.getLast?_map,
    jwtOf]

end Secrets

/-! ## The exported row -/

/-- What `fetch_filtered_http_headers` says of some headers. -/
def Filtered (allowed : List String) (headers : Fingerprint.HashMap String String) (joined : String)
    (count : ℕ) : Prop :=
  count = (HashMap.pairs headers).length ∧
    ∃ listed, Sorter.Listed HttpHeader.name maxExportRelatedRecords
      (((HashMap.pairs headers).filter (·.1 ∈ allowed)).map headerOf) listed ∧
      joined = ";".intercalate (listed.map fun header => header.name ++ ":" ++ header.value)

/-- A list of texts, joined and counted. -/
def Joined (items : List String) (joined : String) (count : ℕ) : Prop :=
  ∃ listed, Sorter.Listed id maxExportRelatedRecords items listed ∧
    joined = ",".intercalate listed ∧ count = listed.length

/-- The joined texts and the counts of a row are those of its lists. -/
structure Summarizes (exported : ExportRow) : Prop where
  redirectCount : exported.redirectCount = exported.redirects.length
  finalRedirectUrl : exported.finalRedirectUrl =
    (exported.redirects.getLast?.map RedirectEntry.redirectUrl).getD ""
  technologiesStr : exported.technologiesStr = joinColonPairs (exported.technologies.map fun tech =>
    (tech.name, tech.version.getD ""))
  technologyCategoriesStr : exported.technologyCategoriesStr =
    ", ".intercalate (exported.technologies.filterMap TechnologyRecord.category)
  technologyCount : exported.technologyCount = exported.technologies.length
  nameserverCount : exported.nameserverCount = exported.nameservers.length
  txtCount : exported.txtCount = exported.txtRecords.length
  mxCount : exported.mxCount = exported.mxRecords.length
  cnameCount : exported.cnameCount = exported.cnameRecords.length
  ipv6Count : exported.ipv6Count = exported.ipv6Addresses.length
  caaCount : exported.caaCount = exported.caaRecords.length
  analyticsIdsStr : exported.analyticsIdsStr = joinColonPairs (exported.analyticsIds.map
    fun analytics => (analytics.provider, analytics.trackingId))
  analyticsCount : exported.analyticsCount = exported.analyticsIds.length
  scriptHostsStr : exported.scriptHostsStr = "; ".intercalate (exported.scriptHosts.map fun host =>
    if host.isFirstParty then host.host ++ " (1p)" else host.host)
  socialMediaLinksStr : exported.socialMediaLinksStr = joinColonPairs
    (exported.socialMediaLinks.map fun link => (link.platform, link.profileUrl))
  socialMediaCount : exported.socialMediaCount = exported.socialMediaLinks.length
  structuredDataTypesStr : exported.structuredDataTypesStr = ",".intercalate ((orderBy
    (exported.structuredDataEntries.map StructuredDataEntry.dataType)).destutter (· ≠ ·))
  structuredDataCount : exported.structuredDataCount = exported.structuredDataEntries.length
  contactLinkCount : exported.contactLinkCount = exported.contactLinks.length
  exposedSecretCount : exported.exposedSecretCount = exported.exposedSecrets.length

/-- A row is the export of the facts and core rows of one record and the enrichments of another
one. -/
structure Exported (readers : Readers) (includeImpliedTech : Bool) (urlStatusId : ℕ)
    (core enriched : PersistedUrlRecord) (exported : ExportRow) : Prop where
  main : exported.main = mainOf urlStatusId core.urlRecord
  redirects : Sorter.Listed RedirectEntry.sequenceOrder maxExportRelatedRecords
    ((storedHops core).map hopOf) exported.redirects
  technologies : Sorter.Listed TechnologyRecord.name maxExportRelatedRecords
    (((distinctTechnologies core.technologies).filter fun tech =>
      includeImpliedTech || !tech.isImplied).map technologyOf) exported.technologies
  certificateSans : Joined core.subjectAlternativeNames.eraseDups exported.certificateSansStr
    exported.certificateSanCount
  oids : Joined core.oids.eraseDups exported.oidsStr exported.oidCount
  nameservers : Sorter.Listed id maxExportRelatedRecords
    ((parseJsonArray readers core.urlRecord.nameservers).getD []).eraseDups exported.nameservers
  txtRecords : Sorter.Listed (fun txt => toLex (txt.recordType, txt.recordValue))
    maxExportRelatedRecords ((storedTxts readers core).eraseDups.map (txtOf readers))
    exported.txtRecords
  mxRecords : Sorter.Listed (fun mx => toLex (mx.priority, mx.mailExchange))
    maxExportRelatedRecords ((storedMxs readers core).eraseDups.map mxOf) exported.mxRecords
  cnameRecords : Sorter.Listed id maxExportRelatedRecords
    ((parseJsonArray readers core.cnameRecords).getD []).eraseDups exported.cnameRecords
  ipv6Addresses : Sorter.Listed id maxExportRelatedRecords
    ((parseJsonArray readers core.aaaaRecords).getD []).eraseDups exported.ipv6Addresses
  caaRecords : Sorter.Listed (fun caa => toLex (caa.tag, caa.value)) maxExportRelatedRecords
    ((storedCaas readers core).map caaOf) exported.caaRecords
  scriptHosts : Sorter.Listed ScriptHostRecord.host maxExportRelatedRecords
    ((OnConflict.lastOf ScriptHostInfo.host core.scriptHosts).map scriptHostOf) exported.scriptHosts
  httpHeaders : Filtered httpKeyHeaders core.httpHeaders exported.httpHeadersStr
    exported.httpHeaderCount
  securityHeaders : Filtered securityKeyHeaders core.securityHeaders exported.securityHeadersStr
    exported.securityHeaderCount
  allHttpHeaders : Sorter.Listed HttpHeader.name maxExportRelatedRecords
    ((HashMap.pairs core.httpHeaders).map headerOf) exported.allHttpHeaders
  allSecurityHeaders : Sorter.Listed HttpHeader.name maxExportRelatedRecords
    ((HashMap.pairs core.securityHeaders).map headerOf) exported.allSecurityHeaders
  analyticsIds : Sorter.Listed (fun analytics => toLex (analytics.provider, analytics.trackingId))
    maxExportRelatedRecords (enriched.analyticsIds.eraseDups.map analyticsOf) exported.analyticsIds
  socialMediaLinks : Sorter.Listed (fun link => toLex (link.platform, link.profileUrl))
    maxExportRelatedRecords
    ((OnConflict.lastOf (fun link => (link.platform, link.url)) enriched.socialMediaLinks).map
      socialOf) exported.socialMediaLinks
  structuredData : Sorter.Listed (fun entry => toLex (entry.dataType, entry.propertyName))
    maxExportRelatedRecords
    (((enriched.structuredData.map structuredProperties).getD []).eraseDups.map structuredOf)
    exported.structuredDataEntries
  contactLinks : Sorter.Listed (fun link => toLex (link.contactType, link.contactValue))
    maxExportRelatedRecords
    ((OnConflict.lastOf (fun link => (link.contactType, link.value)) enriched.contactLinks).map
      contactOf) exported.contactLinks
  exposedSecrets : Sorter.Listed ExposedSecretRecord.secretType maxExportRelatedRecords
    ((OnConflict.lastOf secretKeyOf enriched.exposedSecrets).map fun secret =>
      secretOf secret (jwtOf enriched.exposedSecrets secret)) exported.exposedSecrets
  partialFailures : Sorter.Listed PartialFailure.observedAtMs maxExportRelatedRecords
    (enriched.partialFailures.map failureOf) exported.partialFailures
  geoip : exported.geoip = (enriched.geoip.map fun geoip => geoipOf geoip.2).getD {}
  whois : exported.whois = (enriched.whois.map whoisOf).getD {}
  favicon : exported.faviconHash = enriched.favicon.map (·.hash) ∧
    exported.faviconUrl = enriched.favicon.map (·.faviconUrl)
  summarizes : Summarizes exported

section Assembled

variable (sorter : Sorter) (readers : Readers) (write : WriteStrings) (includeImpliedTech : Bool)
  (core enriched : PersistedUrlRecord)

/-- A list of texts is read back in its order and within its limit. -/
theorem select_textRow (table : Satellite) (name : String)
    (hkey : ∀ value, textKey table name (textRow value) = value) (items : List String) :
    ∃ listed, (select sorter (textKey table name) (items.map textRow)).mapM singleText =
        some listed ∧
      Sorter.Listed id maxExportRelatedRecords items listed := by
  have hread : ∀ value, singleText (textRow value) = some (id value) := fun _ => rfl
  have hsame : ∀ value, textKey table name (textRow value) = id (id value) := hkey
  obtain ⟨listed, hlisted, h⟩ := select_mapM sorter hread hsame items
  rw [List.map_id] at h
  exact ⟨listed, hlisted, h⟩

/-- A list of texts is joined as it is read back. -/
theorem stringList_textRow (table : Satellite) (name : String)
    (hkey : ∀ value, textKey table name (textRow value) = value) (items : List String) :
    ∃ found, stringList sorter table name (items.map textRow) = some found ∧
      Joined items found.1 found.2 := by
  obtain ⟨listed, hlisted, h⟩ := select_textRow sorter table name hkey items
  exact ⟨(",".intercalate listed, listed.length), by rw [stringList, hlisted]; rfl,
    listed, h, rfl, rfl⟩

/-- The key headers are joined, and all are counted. -/
theorem fetchFilteredHttpHeaders_headerRow (allowed : List String)
    (headers : Fingerprint.HashMap String String) :
    ∃ found, fetchFilteredHttpHeaders sorter allowed ((HashMap.pairs headers).map headerRow) =
      some found ∧ Filtered allowed headers found.1 found.2 := by
  have hfilter : (((HashMap.pairs headers).map headerRow).filter fun row =>
      textKey .httpHeaders "header_name" row ∈ allowed) =
        ((HashMap.pairs headers).filter (·.1 ∈ allowed)).map headerRow := by
    rw [List.filter_map]
    rfl
  have hkey : ∀ header, textKey .httpHeaders "header_name" (headerRow header) =
      (headerOf header).name := fun _ => rfl
  obtain ⟨listed, hlisted, h⟩ := select_mapM sorter httpHeader_headerRow hkey
    ((HashMap.pairs headers).filter (·.1 ∈ allowed))
  refine ⟨(";".intercalate (listed.map fun header => header.name ++ ":" ++ header.value),
    (HashMap.pairs headers).length), ?_, rfl, listed, h, rfl⟩
  simp only [fetchFilteredHttpHeaders, hfilter, hlisted, List.length_map]
  rfl

/-- The first row is the only one. -/
theorem head_mapM {γ ρ α : Type} {encode : γ → ρ} {decode : ρ → Option α} {result : γ → α}
    (hdecode : ∀ item, decode (encode item) = some (result item)) (item : Option γ) :
    (item.toList.map encode).head?.mapM decode = some (item.map result) := by
  cases item with
  | none => rfl
  | some item =>
      show (decode (encode item)).map some = _
      rw [hdecode]
      rfl

/-- The redirect chain of a page is read back. -/
theorem read_redirects :
    ∃ listed, (select sorter (integerKey .redirectChain "sequence_order")
        (coreRows readers core .redirectChain)).mapM redirectEntry = some listed ∧
      Sorter.Listed RedirectEntry.sequenceOrder maxExportRelatedRecords
        ((storedHops core).map hopOf) listed := by
  rw [coreRows_redirectChain]
  exact select_mapM sorter redirectEntry_redirectRow integerKey_redirectRow _

/-- The technologies of a page are read back. -/
theorem read_technologies :
    ∃ listed, (select sorter (textKey .technologies "technology_name")
        ((coreRows readers core .technologies).filter fun row =>
          includeImpliedTech || notImplied row)).mapM technologyRecord = some listed ∧
      Sorter.Listed TechnologyRecord.name maxExportRelatedRecords
        (((distinctTechnologies core.technologies).filter fun tech =>
          includeImpliedTech || !tech.isImplied).map technologyOf) listed := by
  rw [coreRows_technologies, List.filter_map]
  simp only [Function.comp_def, notImplied_technologyRow]
  exact select_mapM sorter technologyRecord_technologyRow (fun _ => rfl) _

/-- The TXT records of a page are read back. -/
theorem read_txtRecords :
    ∃ listed, (select sorter (textKeys .txtRecords "record_type" "record_value")
        (coreRows readers core .txtRecords)).mapM txtRecord = some listed ∧
      Sorter.Listed (fun txt => toLex (txt.recordType, txt.recordValue)) maxExportRelatedRecords
        ((storedTxts readers core).eraseDups.map (txtOf readers)) listed := by
  rw [coreRows_txtRecords]
  exact select_mapM sorter (txtRecord_txtRow readers) (textKeys_txtRow readers) _

/-- The mail exchanges of a page are read back. -/
theorem read_mxRecords :
    ∃ listed, (select sorter (fun row => toLex (integerKey .mxRecords "priority" row,
          textKey .mxRecords "mail_exchange" row))
        (coreRows readers core .mxRecords)).mapM mxRecord = some listed ∧
      Sorter.Listed (fun mx => toLex (mx.priority, mx.mailExchange)) maxExportRelatedRecords
        ((storedMxs readers core).eraseDups.map mxOf) listed := by
  rw [coreRows_mxRecords]
  exact select_mapM sorter mxRecord_mxRow (fun _ => rfl) _

/-- The CAA records of a page are read back. -/
theorem read_caaRecords :
    ∃ listed, (select sorter (textKeys .caaRecords "tag" "value")
        (coreRows readers core .caaRecords)).mapM caaRecord = some listed ∧
      Sorter.Listed (fun caa => toLex (caa.tag, caa.value)) maxExportRelatedRecords
        ((storedCaas readers core).map caaOf) listed := by
  rw [coreRows_caaRecords]
  exact select_mapM sorter caaRecord_caaRow (fun _ => rfl) _

/-- The script hosts of a page are read back. -/
theorem read_scriptHosts :
    ∃ listed, (select sorter (textKey .scriptHosts "host")
        (coreRows readers core .scriptHosts)).mapM scriptHostRecord = some listed ∧
      Sorter.Listed ScriptHostRecord.host maxExportRelatedRecords
        ((OnConflict.lastOf ScriptHostInfo.host core.scriptHosts).map scriptHostOf) listed := by
  rw [coreRows_scriptHosts]
  exact select_mapM sorter scriptHostRecord_scriptHostRow (fun _ => rfl) _

/-- The headers of a page are read back. -/
theorem read_headers (table : Satellite) (headers : Fingerprint.HashMap String String)
    (hkey : ∀ header, textKey table "header_name" (headerRow header) = header.1) :
    ∃ listed, (select sorter (textKey table "header_name")
        (mergedRows (insertHeaders headers) [])).mapM httpHeader = some listed ∧
      Sorter.Listed HttpHeader.name maxExportRelatedRecords
        ((HashMap.pairs headers).map headerOf) listed := by
  rw [mergedRows_headers]
  exact select_mapM sorter httpHeader_headerRow hkey _

/-- The tracking ids of a page are read back. -/
theorem read_analyticsIds :
    ∃ listed, (select sorter (textKeys .analyticsIds "provider" "tracking_id")
        (enrichmentRows write enriched .analyticsIds)).mapM analyticsIdRecord = some listed ∧
      Sorter.Listed (fun analytics => toLex (analytics.provider, analytics.trackingId))
        maxExportRelatedRecords
        (enriched.analyticsIds.eraseDups.map analyticsOf) listed := by
  rw [enrichmentRows_analyticsIds]
  exact select_mapM sorter analyticsIdRecord_analyticsRow (fun _ => rfl) _

/-- The links of a page to social media are read back. -/
theorem read_socialMediaLinks :
    ∃ listed, (select sorter (textKeys .socialMediaLinks "platform" "profile_url")
        (enrichmentRows write enriched .socialMediaLinks)).mapM socialMediaLink = some listed ∧
      Sorter.Listed (fun link => toLex (link.platform, link.profileUrl)) maxExportRelatedRecords
        ((OnConflict.lastOf (fun link => (link.platform, link.url)) enriched.socialMediaLinks).map
          socialOf) listed := by
  rw [enrichmentRows_socialMediaLinks]
  exact select_mapM sorter socialMediaLink_socialRow (fun _ => rfl) _

/-- The structured data of a page is read back. -/
theorem read_structuredData :
    ∃ listed, (select sorter (textKeys .structuredData "data_type" "property_name")
        (enrichmentRows write enriched .structuredData)).mapM structuredDataEntry = some listed ∧
      Sorter.Listed (fun entry => toLex (entry.dataType, entry.propertyName))
        maxExportRelatedRecords
        (((enriched.structuredData.map structuredProperties).getD []).eraseDups.map structuredOf)
        listed := by
  rw [enrichmentRows_structuredData]
  exact select_mapM sorter structuredDataEntry_structuredRow (fun _ => rfl) _

/-- The contacts of a page are read back. -/
theorem read_contactLinks :
    ∃ listed, (select sorter (textKeys .contactLinks "contact_type" "contact_value")
        (enrichmentRows write enriched .contactLinks)).mapM contactLinkRecord = some listed ∧
      Sorter.Listed (fun link => toLex (link.contactType, link.contactValue))
        maxExportRelatedRecords
        ((OnConflict.lastOf (fun link => (link.contactType, link.value)) enriched.contactLinks).map
          contactOf) listed := by
  rw [enrichmentRows_contactLinks]
  exact select_mapM sorter contactLinkRecord_contactRow (fun _ => rfl) _

/-- The partial failures of a page are read back. -/
theorem read_partialFailures :
    ∃ listed, (select sorter (integerKey .partialFailures "observed_at_ms")
        (enrichmentRows write enriched .partialFailures)).mapM partialFailure = some listed ∧
      Sorter.Listed PartialFailure.observedAtMs maxExportRelatedRecords
        (enriched.partialFailures.map failureOf) listed :=
  select_mapM sorter partialFailure_partialFailureRow (fun _ => rfl) _

/-- The secrets of a page are read back with their claims. -/
theorem read_secrets (secrets : List Secrets.ExposedSecret) :
    ∃ listed, (select sorter (fun joined => textKey .exposedSecrets "secret_type" joined.1)
        ((OnConflict.lastOf secretKeyOf secrets).map fun secret =>
          (secretRow secret, (jwtOf secrets secret).map jwtValues))).mapM exposedSecretRecord =
        some listed ∧
      Sorter.Listed ExposedSecretRecord.secretType maxExportRelatedRecords
        ((OnConflict.lastOf secretKeyOf secrets).map fun secret =>
          secretOf secret (jwtOf secrets secret)) listed :=
  select_mapM sorter (fun secret => exposedSecretRecord_secretRow secret _) (fun _ => rfl) _

/-- Rows that come from records make an exported row. -/
theorem assemble_composed {rows : Satellite → List (List Value)}
    (hcore : ∀ table ∈ Satellite.core, rows table = coreRows readers core table)
    (henriched : ∀ table ∉ Satellite.core, rows table = enrichmentRows write enriched table)
    (urlStatusId : ℕ) :
    ∃ exported, assemble sorter rows
        ((OnConflict.lastOf secretKeyOf enriched.exposedSecrets).map fun secret =>
          (secretRow secret, (jwtOf enriched.exposedSecrets secret).map jwtValues))
        (mainOf urlStatusId core.urlRecord) includeImpliedTech = some exported ∧
      Exported readers includeImpliedTech urlStatusId core enriched exported := by
  obtain ⟨redirects, hredirects, hredirects'⟩ := read_redirects sorter readers core
  obtain ⟨technologies, htechnologies, htechnologies'⟩ :=
    read_technologies sorter readers includeImpliedTech core
  obtain ⟨sans, hsans, hsans'⟩ := stringList_textRow sorter .certificateSans "san_value"
    (fun _ => rfl) core.subjectAlternativeNames.eraseDups
  obtain ⟨oids, hoids, hoids'⟩ := stringList_textRow sorter .certificateOids "oid" (fun _ => rfl)
    core.oids.eraseDups
  obtain ⟨nameservers, hnameservers, hnameservers'⟩ := select_textRow sorter .nameservers
    "nameserver" (fun _ => rfl)
    ((parseJsonArray readers core.urlRecord.nameservers).getD []).eraseDups
  obtain ⟨txts, htxts, htxts'⟩ := read_txtRecords sorter readers core
  obtain ⟨mxs, hmxs, hmxs'⟩ := read_mxRecords sorter readers core
  obtain ⟨cnames, hcnames, hcnames'⟩ := select_textRow sorter .cnameRecords "cname_target"
    (fun _ => rfl) ((parseJsonArray readers core.cnameRecords).getD []).eraseDups
  obtain ⟨ipv6s, hipv6s, hipv6s'⟩ := select_textRow sorter .ipv6Addresses "ipv6_address"
    (fun _ => rfl) ((parseJsonArray readers core.aaaaRecords).getD []).eraseDups
  obtain ⟨caas, hcaas, hcaas'⟩ := read_caaRecords sorter readers core
  obtain ⟨analytics, hanalytics, hanalytics'⟩ := read_analyticsIds sorter write enriched
  obtain ⟨scripts, hscripts, hscripts'⟩ := read_scriptHosts sorter readers core
  obtain ⟨social, hsocial, hsocial'⟩ := read_socialMediaLinks sorter write enriched
  obtain ⟨structured, hstructured, hstructured'⟩ := read_structuredData sorter write enriched
  obtain ⟨keyHttp, hkeyHttp, hkeyHttp'⟩ :=
    fetchFilteredHttpHeaders_headerRow sorter httpKeyHeaders core.httpHeaders
  obtain ⟨keySecurity, hkeySecurity, hkeySecurity'⟩ :=
    fetchFilteredHttpHeaders_headerRow sorter securityKeyHeaders core.securityHeaders
  obtain ⟨http, hhttp, hhttp'⟩ := read_headers sorter .httpHeaders core.httpHeaders fun _ => rfl
  obtain ⟨security, hsecurity, hsecurity'⟩ := read_headers sorter .securityHeaders
    core.securityHeaders fun _ => rfl
  obtain ⟨failures, hfailures, hfailures'⟩ := read_partialFailures sorter write enriched
  obtain ⟨contacts, hcontacts, hcontacts'⟩ := read_contactLinks sorter write enriched
  obtain ⟨secrets, hsecrets, hsecrets'⟩ := read_secrets sorter enriched.exposedSecrets
  have hgeoip : ((enriched.geoip.toList.map fun geoip => geoipRow geoip.2).head?.mapM geoIpData) =
      some (enriched.geoip.map fun geoip => geoipOf geoip.2) :=
    head_mapM (fun geoip => geoIpData_geoipRow geoip.2) enriched.geoip
  have hwhois := head_mapM (whoisData_whoisRow write) enriched.whois
  have hfavicon := head_mapM faviconRecord_faviconRow enriched.favicon
  have hsansRows : rows .certificateSans = core.subjectAlternativeNames.eraseDups.map textRow :=
    (hcore _ (by decide)).trans (mergedRows_singleColumn _ _)
  have hoidsRows : rows .certificateOids = core.oids.eraseDups.map textRow :=
    (hcore _ (by decide)).trans (mergedRows_singleColumn _ _)
  have hnameserversRows : rows .nameservers =
      ((parseJsonArray readers core.urlRecord.nameservers).getD []).eraseDups.map textRow :=
    (hcore _ (by decide)).trans (mergedRows_singleColumn _ _)
  have hcnamesRows : rows .cnameRecords =
      ((parseJsonArray readers core.cnameRecords).getD []).eraseDups.map textRow :=
    (hcore _ (by decide)).trans (mergedRows_singleColumn _ _)
  have hipv6sRows : rows .ipv6Addresses =
      ((parseJsonArray readers core.aaaaRecords).getD []).eraseDups.map textRow :=
    (hcore _ (by decide)).trans (mergedRows_singleColumn _ _)
  have hhttpRows : rows .httpHeaders = mergedRows (insertHeaders core.httpHeaders) [] :=
    hcore _ (by decide)
  have hsecurityRows : rows .securityHeaders = mergedRows (insertHeaders core.securityHeaders) [] :=
    hcore _ (by decide)
  rw [← mergedRows_headers] at hkeyHttp hkeySecurity
  simp only [assemble, hcore .redirectChain (by decide), hcore .technologies (by decide),
    hcore .txtRecords (by decide), hcore .mxRecords (by decide), hcore .caaRecords (by decide),
    hcore .scriptHosts (by decide), henriched .analyticsIds (by decide),
    henriched .socialMediaLinks (by decide), henriched .structuredData (by decide),
    henriched .partialFailures (by decide), henriched .contactLinks (by decide),
    henriched .geoip (by decide), henriched .whois (by decide), henriched .favicons (by decide),
    enrichmentRows_geoip, enrichmentRows_whois, enrichmentRows_favicons,
    hsansRows, hoidsRows, hnameserversRows, hcnamesRows, hipv6sRows, hhttpRows, hsecurityRows,
    hredirects, htechnologies, hsans, hoids, hnameservers, htxts, hmxs, hcnames, hipv6s, hcaas,
    hanalytics, hscripts, hsocial, hstructured, hkeyHttp, hkeySecurity, hhttp, hsecurity, hfailures,
    hgeoip, hwhois, hfavicon, hcontacts, hsecrets, Option.bind_eq_bind, Option.bind_some]
  refine ⟨_, rfl, ?_⟩
  exact {
    main := rfl
    redirects := hredirects'
    technologies := htechnologies'
    certificateSans := hsans'
    oids := hoids'
    nameservers := hnameservers'
    txtRecords := htxts'
    mxRecords := hmxs'
    cnameRecords := hcnames'
    ipv6Addresses := hipv6s'
    caaRecords := hcaas'
    scriptHosts := hscripts'
    httpHeaders := hkeyHttp'
    securityHeaders := hkeySecurity'
    allHttpHeaders := hhttp'
    allSecurityHeaders := hsecurity'
    analyticsIds := hanalytics'
    socialMediaLinks := hsocial'
    structuredData := hstructured'
    contactLinks := hcontacts'
    exposedSecrets := hsecrets'
    partialFailures := hfailures'
    geoip := rfl
    whois := rfl
    favicon := by simp [Option.map_map, Function.comp_def, faviconOf]
    summarizes := by constructor <;> rfl }

/-- The record of a page without enrichments. -/
def blank : PersistedUrlRecord where
  urlRecord := default

/-- A page without enrichments is one with empty enrichments. -/
theorem compose_getD (core : PersistedUrlRecord) (enriched : Option PersistedUrlRecord) :
    Page.compose readers write core enriched =
      Page.compose readers write core (some (enriched.getD blank)) := by
  cases enriched with
  | none =>
      ext1
      · rfl
      · funext table
        by_cases htable : table ∈ Satellite.core
        · simp [Page.compose, htable]
        · simp only [Page.compose, htable, if_false]
          cases table <;> rfl
      · rfl
  | some enriched => rfl

/-- A page of the database that comes from records is exported with what the records have. -/
theorem buildExportRow_composed {db : Database} {row : Row (List Value)}
    (hpage : db.pageOf row = Page.compose readers write core (some enriched)) :
    ∃ exported, buildExportRow sorter db (mainOf row.id core.urlRecord) includeImpliedTech =
        some exported ∧
      Exported readers includeImpliedTech row.id core enriched exported := by
  have hrows : ∀ table, (db.satellites table).valuesOf row.id =
      if table ∈ Satellite.core then coreRows readers core table
      else enrichmentRows write enriched table := congrFun (congrArg Page.rows hpage)
  have hclaims : db.claimsOf row.id = recordClaims enriched := congrArg Page.claims hpage
  have hsecrets : (db.satellites .exposedSecrets).valuesOf row.id =
      (OnConflict.lastOf secretKeyOf enriched.exposedSecrets).map secretRow := by
    rw [hrows, if_neg (by decide), enrichmentRows_exposedSecrets]
  have hjoined : secretRows db row.id =
      (OnConflict.lastOf secretKeyOf enriched.exposedSecrets).map fun secret =>
        (secretRow secret, (jwtOf enriched.exposedSecrets secret).map jwtValues) := by
    rw [secretRows_eq, hsecrets, hclaims, List.map_map]
    · refine List.map_congr_left fun secret _ => ?_
      exact congrArg (Prod.mk (secretRow secret)) (recordClaims_find enriched secret)
    · rw [hsecrets, List.map_map]
      exact OnConflict.nodup_lastOf secretKeyOf enriched.exposedSecrets
    · rw [hclaims]
      exact OnConflict.nodup_lastOf Prod.fst (claimPairs enriched.exposedSecrets)
  have hid : (mainOf row.id core.urlRecord).id = row.id := rfl
  rw [buildExportRow, hid, hjoined]
  refine assemble_composed sorter readers write includeImpliedTech core enriched
    (fun table htable => ?_) (fun table htable => ?_) row.id
  · rw [hrows, if_pos htable]
  · rw [hrows, if_neg htable]

end Assembled

/-! ## The lists of a certificate -/

/-- The first column of a row as a text. -/
theorem firstText_eq (row : List Value) : firstText row = (text (row.getD 0 .null)).getD "" := by
  rcases row with _ | ⟨_ | _ | _ | _, rest⟩ <;> rfl

/-- A joined list is the one that `fetchStringList` reads, whatever sorts the rows. -/
theorem stringList_eq_fetchStringList {sorter : Sorter} {db : Database} {table : Satellite}
    {name : String} {urlStatusId : ℕ} {found : String × ℕ} (hcolumns : table.columns = [name])
    (h : stringList sorter table name ((db.satellites table).valuesOf urlStatusId) = some found) :
    found = fetchStringList db table urlStatusId := by
  have hkey : ∀ row, textKey table name row = firstText row := by
    intro row
    rw [textKey, column, hcolumns, List.idxOf_cons_self, firstText_eq]
  obtain ⟨items, hitems, hfound⟩ := Option.bind_eq_some_iff.mp h
  obtain rfl := Option.some.inj hfound
  have hread : items = (select sorter (textKey table name)
      ((db.satellites table).valuesOf urlStatusId)).map firstText := by
    refine (((List.mapM_eq_some_iff.mp hitems).map_eq fun row value hvalue => ?_).trans
      (List.map_id items)).symm
    rw [firstText_eq, show text (row.getD 0 .null) = some value from hvalue]
    rfl
  -- Sorted texts are the same, however the rows with equal texts are sorted.
  have hsorted : (sorter.sort (textKey table name)
      ((db.satellites table).valuesOf urlStatusId)).map firstText =
        orderBy (storedStrings db table urlStatusId) := by
    refine @Sorter.eq_of_sorted _ _ _ id _ _ ?_ (fun _ _ _ _ h => h) ?_ ?_
    · exact ((sorter.perm _ _).map firstText).trans (orderBy_perm _).symm
    · refine List.pairwise_map.mpr ((sorter.sorted _ _).imp fun h => ?_)
      rwa [hkey, hkey] at h
    · exact Sorter.stable.sorted id (storedStrings db table urlStatusId)
  rw [hread, select, List.map_take, hsorted]
  rfl

/-- The lists of a certificate in a row are those of `Export.buildExportRow`. -/
theorem certificate_of_buildExportRow {sorter : Sorter} {db : Database} {main : MainRowData}
    {includeImpliedTech : Bool} {exported : ExportRow}
    (h : buildExportRow sorter db main includeImpliedTech = some exported) :
    Export.buildExportRow db main.id =
      { certificateSansStr := exported.certificateSansStr
        certificateSanCount := exported.certificateSanCount
        oidsStr := exported.oidsStr
        oidCount := exported.oidCount } := by
  obtain ⟨redirects, -, h⟩ := Option.bind_eq_some_iff.mp h
  obtain ⟨technologies, -, h⟩ := Option.bind_eq_some_iff.mp h
  obtain ⟨sans, hsans, h⟩ := Option.bind_eq_some_iff.mp h
  obtain ⟨oids, hoids, h⟩ := Option.bind_eq_some_iff.mp h
  rw [Export.buildExportRow, ← stringList_eq_fetchStringList rfl hsans,
    ← stringList_eq_fetchStringList rfl hoids]
  -- The other queries do not matter for these fields.
  iterate 20 obtain ⟨_, -, h⟩ := Option.bind_eq_some_iff.mp h
  rw [← Option.some.inj h]

end DomainStatus.Export.Row
