import DomainStatus.Fetch.DnsRecords
import DomainStatus.Lib.Fallible
import DomainStatus.Storage.Items
import DomainStatus.Storage.Pages

/-!
# Stored DNS records

The way of the DNS records of a page from the answers of the resolver, over their texts in JSON,
into the tables. Read `dns_rows_match_lookups` first.
-/

namespace DomainStatus.Storage

open Dns ErrorHandling

variable {readers : Readers} {write : Json → Option String}

/-- The crate `serde_json` has a text for the value and reads it back. -/
def WritesJson (readers : Readers) (write : Json → Option String) (value : Json) : Prop :=
  ∃ text, write value = some text ∧ text ≠ "" ∧ readers.json text = some value

/-! ## Through JSON -/

section Through

variable {T : Type} {toJson : List T → Json} {looked : Except NetError (List T)}

/-- An empty answer is not kept. -/
theorem kept_eq_none (h : found looked = []) : kept write toJson looked = none := by
  rw [kept, h]
  rfl

/-- An answer with records is kept as JSON. -/
theorem kept_eq_some (hne : found looked ≠ [])
    (h : found looked ≠ [] → WritesJson readers write (toJson (found looked))) :
    ∃ text, kept write toJson looked = some text ∧ text ≠ "" ∧
      readers.json text = some (toJson (found looked)) := by
  obtain ⟨text, hwrite, htext, hread⟩ := h hne
  refine ⟨text, ?_, htext, hread⟩
  rw [kept, serializeJsonWithDefault, hwrite]
  simp [hne]

/-- An array of strings is read as its strings. -/
theorem mapM_asStr (texts : List String) :
    (texts.map Json.string).mapM Json.asStr = some texts := by
  induction texts with
  | nil => rfl
  | cons text rest ih =>
      rw [List.map_cons, List.mapM_cons, ih]
      rfl

/-- A list of texts gets through. -/
theorem parseJsonArray_kept {looked : Except NetError (List String)}
    (h : found looked ≠ [] → WritesJson readers write (textsJson (found looked))) :
    (parseJsonArray readers (kept write textsJson looked)).getD [] = found looked := by
  by_cases hempty : found looked = []
  · rw [kept_eq_none hempty, hempty]
    rfl
  · obtain ⟨text, hkept, hne, hread⟩ := kept_eq_some hempty h
    have hasStrings : (textsJson (found looked)).asStrings = some (found looked) := mapM_asStr _
    simp [parseJsonArray, hkept, hne, hread, hasStrings]

/-- A number of 16 bits fits the column. -/
theorem toI32_toNat_uint16 (value : UInt16) : toI32 (value.toNat : ℤ) = value.toNat := by
  have hlt := value.toNat_lt
  rw [toI32]
  refine Int.bmod_eq_of_le ?_ ?_ <;> omega

/-- A number of 8 bits fits the column. -/
theorem toI32_toNat_uint8 (value : UInt8) : toI32 (value.toNat : ℤ) = value.toNat := by
  have hlt := value.toNat_lt
  rw [toI32]
  refine Int.bmod_eq_of_le ?_ ?_ <;> omega

/-- A priority and a host. -/
def mxOf (mx : UInt16 × String) : ℤ × String :=
  (mx.1.toNat, mx.2)

/-- A mail server that was written is read back. -/
theorem mxObject_mxJson (mx : UInt16 × String) :
    mxObject (.object [("hostname", .string mx.2), ("priority", .posInt mx.1.toUInt64)]) =
      some (mxOf mx) := by
  have hpriority : (Json.posInt mx.1.toUInt64).asI64 = some (mx.1.toNat : ℤ) := by
    have hlt := mx.1.toNat_lt
    simp only [Json.asI64, UInt16.toNat_toUInt64]
    rw [if_pos (by omega)]
  simp [mxObject, Json.get, hpriority, Json.asStr, toI32_toNat_uint16, mxOf]

/-- So does a list of priorities and hosts. -/
theorem parseMxJsonArray_kept {mxs : Except NetError (List (UInt16 × String))}
    (h : found mxs ≠ [] → WritesJson readers write (mxJson (found mxs))) :
    (parseMxJsonArray readers (kept write mxJson mxs)).getD [] = (found mxs).map mxOf := by
  by_cases hempty : found mxs = []
  · rw [kept_eq_none hempty, hempty]
    rfl
  · obtain ⟨text, hkept, hne, hread⟩ := kept_eq_some hempty h
    have hobjects : ((mxJson (found mxs)).asArray.getD []).filterMap mxObject =
        (found mxs).map mxOf := by
      simp only [mxJson, Json.asArray, Option.getD_some, List.filterMap_map, Function.comp_def,
        mxObject_mxJson]
      exact congrFun List.filterMap_eq_map' _
    have hsome : (found mxs).map mxOf ≠ [] := by simpa using hempty
    rw [parseMxJsonArray, hkept]
    show (if text = "" then none else (readers.json text).bind _).getD [] = _
    rw [if_neg hne, hread, Option.bind_some, hobjects, if_pos hsome]
    rfl

/-- A record for `CAA`, as it is stored. -/
def storedCaa (caa : UInt8 × String × String) : CaaRecord where
  flag := caa.1.toNat
  tag := caa.2.1
  value := caa.2.2

/-- The authorizations that were written are read back. -/
theorem caas_kept {caas : Except NetError (List (UInt8 × String × String))}
    (h : found caas ≠ [] → WritesJson readers write (caaJson (found caas))) :
    ((((kept write caaJson caas).bind readers.json).bind Json.asArray).getD []).map caaOf =
      (found caas).map storedCaa := by
  by_cases hempty : found caas = []
  · rw [kept_eq_none hempty, hempty]
    rfl
  · obtain ⟨text, hkept, -, hread⟩ := kept_eq_some hempty h
    have hcaa : ∀ caa : UInt8 × String × String, caaOf (.object [("flag", .posInt caa.1.toUInt64),
        ("tag", .string caa.2.1), ("value", .string caa.2.2)]) = storedCaa caa := by
      intro caa
      simp [caaOf, Json.get, Json.asU64, Json.asStr, toI32_toNat_uint8, storedCaa]
    simp [hkept, hread, caaJson, Json.asArray, hcaa]

end Through

/-! ## Records for `TXT` -/

/-- What the lookup for `TXT` returns. It never panics. -/
def txtAnswer (resolver : Resolver) (domain : String) : Except NetError (List String) :=
  (lookupTxts resolver domain).getD (.ok [])

/-- The texts of the records that are kept of an answer. -/
def keptTxts (answers : List RData) : List (List Char) :=
  takeStorableTxt ((answers.filterMap txtData?).map fun txtData =>
    Text.truncateAtCharBoundary maxTxtRecordSize
      (Utf8.decodeChunks (txtData.map CharacterString.bytes)))

/-- An answer gives the texts that are kept. -/
theorem lookupTxtRecords_ok (answers : List RData) :
    lookupTxtRecords (.ok answers) = some (.ok (keptTxts answers)) := by
  have hrecords := List.mapM_eq_some_map
    fun txtData (_ : txtData ∈ answers.filterMap txtData?) => txtRecordText_eq txtData
  simp only [lookupTxtRecords, hrecords]
  rfl

/-- The look-up of the texts gives the kept answer. -/
theorem lookupTxts_eq (resolver : Resolver) (domain : String) :
    lookupTxts resolver domain = some (txtAnswer resolver domain) := by
  unfold txtAnswer lookupTxts
  cases resolver domain .txt with
  | error err => rfl
  | ok answers =>
      rw [Except.map, lookupTxtRecords_ok]
      rfl

/-- Kept texts are not blank and not too long. -/
theorem keptTxts_spec {answers : List RData} {txt : List Char} (h : txt ∈ keptTxts answers) :
    Text.trimChars txt ≠ [] ∧ Text.len txt ≤ maxTxtRecordSize := by
  obtain ⟨hmem, hstorable⟩ := List.mem_filter.mp (List.mem_of_mem_take h)
  obtain ⟨txtData, -, rfl⟩ := List.mem_map.mp hmem
  constructor
  · simpa [isStorableTxt] using hstorable
  · exact (Text.truncateAtCharBoundary_isLongestStart _ _).holds

/-- The records that are kept are few, short and not blank. -/
theorem found_txtAnswer (resolver : Resolver) (domain : String) :
    (found (txtAnswer resolver domain)).length ≤ maxTxtRecordCount ∧
      ∀ txt ∈ found (txtAnswer resolver domain),
        Text.trim txt ≠ "" ∧ Text.len txt.toList ≤ maxTxtRecordSize := by
  unfold txtAnswer lookupTxts
  cases resolver domain .txt with
  | error err =>
      rw [Except.map, lookupTxtRecords, mapLookupError]
      split <;> exact ⟨Nat.zero_le _, fun _ htxt => absurd htxt List.not_mem_nil⟩
  | ok answers =>
      rw [Except.map, lookupTxtRecords_ok]
      show ((keptTxts (answers.map RecordData.toRData)).map String.ofList).length ≤ _ ∧
        ∀ txt ∈ (keptTxts (answers.map RecordData.toRData)).map String.ofList, _
      constructor
      · rw [List.length_map]
        exact List.length_take_le _ _
      · intro txt htxt
        obtain ⟨chars, hchars, rfl⟩ := List.mem_map.mp htxt
        obtain ⟨hblank, hlen⟩ := keptTxts_spec hchars
        refine ⟨fun hempty => hblank ?_, ?_⟩
        · have htrim := congrArg String.toList hempty
          simpa [Text.trim] using htrim
        · rwa [String.toList_ofList]

/-! ## The rows -/

/-- The record with what was collected about its domain. -/
def withDns (record : PersistedUrlRecord) (result : AdditionalDnsResult) : PersistedUrlRecord where
  __ := record
  urlRecord :=
    { record.urlRecord with
      nameservers := result.data.nameservers
      txtRecords := result.data.txtRecords
      mxRecords := result.data.mxRecords
      spfRecord := result.data.spfRecord
      dmarcRecord := result.data.dmarcRecord
      mtaStsRecord := result.data.mtaStsRecord
      tlsRptRecord := result.data.tlsRptRecord
      bimiRecord := result.data.bimiRecord }
  partialFailures := record.partialFailures ++ result.partialFailures.map fun failure =>
    { urlStatusId := 0
      errorType := failure.1
      errorMessage := failure.2
      timestamp := record.urlRecord.timestamp
      runId := record.urlRecord.runId }
  cnameRecords := result.data.cnameChain
  aaaaRecords := result.data.aaaaRecords
  caaRecords := result.data.caaRecords

/-- The values of JSON that are written for a domain. -/
def dnsJson (resolver : Resolver) (domain : String) : List Json :=
  [textsJson (found (lookupNsRecords resolver domain)),
    textsJson (found (txtAnswer resolver domain)),
    mxJson (found (lookupMxRecords resolver domain)),
    textsJson (found (lookupCnameRecords resolver domain)),
    textsJson (found (lookupAaaaRecords resolver domain)),
    caaJson (found (lookupCaaRecords resolver domain))]

/-- The records for `TXT` in the answers for the domain and for its subdomains that say something
about mail, in the order of `policyColumns`. -/
def policies (resolver : Resolver) (domain : String) : List (Option String) :=
  let own := found (txtAnswer resolver domain)
  let sub := fun label => found (txtAnswer resolver (label ++ "." ++ domain))
  [extractSpfRecord own, (extractDmarcRecord own).or (extractDmarcRecord (sub "_dmarc")),
    extractMtaStsRecord (sub "_mta-sts"), extractTlsRptRecord (sub "_smtp._tls"),
    extractBimiRecord (sub "default._bimi")]

/-- The columns with the texts about mail. -/
def policyColumns : List String :=
  ["spf_record", "dmarc_record", "mta_sts_record", "tls_rpt_record", "bimi_record"]

/-- The tables have for a page what the lookups for its domain returned. -/
structure DnsRows (readers : Readers) (resolver : Resolver) (domain : String)
    (key : Value × Value) (db : Database) (urlStatusId : ℕ) : Prop where
  status : ∃ row, db.urlStatus.withKey key = [row] ∧ row.id = urlStatusId ∧
    policyColumns.map (statusColumn · row.value) =
      (policies resolver domain).map (Value.ofOption .text)
  nameservers : (db.satellites .nameservers).valuesOf urlStatusId =
    (found (lookupNsRecords resolver domain)).eraseDups.map textRow
  txtRecords : (db.satellites .txtRecords).valuesOf urlStatusId =
    (found (txtAnswer resolver domain)).eraseDups.map (txtRow readers)
  mxRecords : (db.satellites .mxRecords).valuesOf urlStatusId =
    ((found (lookupMxRecords resolver domain)).map mxOf).eraseDups.map mxRow
  cnameRecords : (db.satellites .cnameRecords).valuesOf urlStatusId =
    (found (lookupCnameRecords resolver domain)).eraseDups.map textRow
  ipv6Addresses : (db.satellites .ipv6Addresses).valuesOf urlStatusId =
    (found (lookupAaaaRecords resolver domain)).eraseDups.map textRow
  caaRecords : (db.satellites .caaRecords).valuesOf urlStatusId =
    (OnConflict.lastOf (fun caa : CaaRecord => (caa.tag, caa.value))
      ((found (lookupCaaRecords resolver domain)).map storedCaa)).map caaRow

/-- The type of the partial failure for a lookup, if it failed. -/
def failedType {T : Type} (errorType : ErrorType) : Except NetError (List T) → List ErrorType
  | .ok _ => []
  | .error _ => [errorType]

/-- What a look-up leaves as failures. -/
theorem failureOf_spec {T : Type} (domain : String) (errorType : ErrorType) (label : String)
    (looked : Except NetError (List T)) :
    ∃ failures, failureOf domain errorType label looked = some failures ∧
      failures.map Prod.fst = failedType errorType looked ∧
      ∀ failure ∈ failures, Sanitize.BoundedMessage failure.2 := by
  cases looked with
  | ok records => exact ⟨[], rfl, rfl, nofun⟩
  | error err =>
      obtain ⟨message, hmessage, hbounded⟩ := Sanitize.sanitizeAndTruncate_bounded
        ("Failed to lookup " ++ label ++ " records for " ++ domain ++ ": " ++ err.text)
      refine ⟨[(errorType, String.ofList message)], ?_, rfl, ?_⟩
      · rw [failureOf, hmessage]
        rfl
      · intro failure hfailure
        rw [List.mem_singleton.mp hfailure]
        exact hbounded

/-- The types of the partial failures for a domain, in their order. -/
def failedTypes (resolver : Resolver) (domain : String) : List ErrorType :=
  failedType .dnsNsLookupError (lookupNsRecords resolver domain) ++
    failedType .dnsTxtLookupError (txtAnswer resolver domain) ++
    failedType .dnsMxLookupError (lookupMxRecords resolver domain) ++
    failedType .dnsCnameLookupError (lookupCnameRecords resolver domain) ++
    failedType .dnsAaaaLookupError (lookupAaaaRecords resolver domain) ++
    failedType .dnsCaaLookupError (lookupCaaRecords resolver domain)

/-- What is collected for a domain. -/
structure Collected (write : Json → Option String) (resolver : Resolver) (domain : String)
    (result : AdditionalDnsResult) : Prop where
  nameservers : result.data.nameservers = kept write textsJson (lookupNsRecords resolver domain)
  txtRecords : result.data.txtRecords = kept write textsJson (txtAnswer resolver domain)
  mxRecords : result.data.mxRecords = kept write mxJson (lookupMxRecords resolver domain)
  cnameChain : result.data.cnameChain =
    kept write textsJson (lookupCnameRecords resolver domain)
  aaaaRecords : result.data.aaaaRecords =
    kept write textsJson (lookupAaaaRecords resolver domain)
  caaRecords : result.data.caaRecords = kept write caaJson (lookupCaaRecords resolver domain)
  policies : [result.data.spfRecord, result.data.dmarcRecord, result.data.mtaStsRecord,
    result.data.tlsRptRecord, result.data.bimiRecord] = policies resolver domain
  failures : result.partialFailures.map Prod.fst = failedTypes resolver domain
  messages : ∀ failure ∈ result.partialFailures, Sanitize.BoundedMessage failure.2

/-- The policy comes from the texts of its own name or of the domain. -/
theorem lookupDmarcRecord_eq (resolver : Resolver) (domain : String) (txtRecords : List String) :
    lookupDmarcRecord resolver domain txtRecords =
      some ((extractDmarcRecord txtRecords).or
        (extractDmarcRecord (found (txtAnswer resolver ("_dmarc" ++ "." ++ domain))))) := by
  unfold lookupDmarcRecord subdomainRecord
  rw [lookupTxts_eq]
  cases extractDmarcRecord txtRecords <;> rfl

/-- The look-ups give what is collected from the answers. -/
theorem fetchAdditionalDnsRecords_collected (write : Json → Option String) (resolver : Resolver)
    (domain : String) :
    ∃ result, fetchAdditionalDnsRecords resolver domain write = some result ∧
      Collected write resolver domain result := by
  obtain ⟨ns, hns, hnsTypes, hnsTexts⟩ := failureOf_spec domain .dnsNsLookupError "NS"
    (lookupNsRecords resolver domain)
  obtain ⟨txt, htxt, htxtTypes, htxtTexts⟩ := failureOf_spec domain .dnsTxtLookupError "TXT"
    (txtAnswer resolver domain)
  obtain ⟨mx, hmx, hmxTypes, hmxTexts⟩ := failureOf_spec domain .dnsMxLookupError "MX"
    (lookupMxRecords resolver domain)
  obtain ⟨cname, hcname, hcnameTypes, hcnameTexts⟩ := failureOf_spec domain .dnsCnameLookupError
    "CNAME" (lookupCnameRecords resolver domain)
  obtain ⟨aaaa, haaaa, haaaaTypes, haaaaTexts⟩ := failureOf_spec domain .dnsAaaaLookupError "AAAA"
    (lookupAaaaRecords resolver domain)
  obtain ⟨caa, hcaa, hcaaTypes, hcaaTexts⟩ := failureOf_spec domain .dnsCaaLookupError "CAA"
    (lookupCaaRecords resolver domain)
  simp only [fetchAdditionalDnsRecords, lookupTxts_eq, subdomainRecord, lookupDmarcRecord_eq,
    Option.bind_eq_bind, Option.bind_some, Option.map_some, hns, htxt, hmx, hcname, haaaa, hcaa]
  refine ⟨_, rfl, rfl, rfl, rfl, rfl, rfl, rfl, rfl, ?_, ?_⟩
  · simp only [List.map_append, hnsTypes, htxtTypes, hmxTypes, hcnameTypes, haaaaTypes, hcaaTypes]
    rfl
  · intro failure hfailure
    simp only [List.mem_append] at hfailure
    rcases hfailure with ((((h | h) | h) | h) | h) | h
    · exact hnsTexts failure h
    · exact htxtTexts failure h
    · exact hmxTexts failure h
    · exact hcnameTexts failure h
    · exact haaaaTexts failure h
    · exact hcaaTexts failure h

variable {resolver : Resolver} {domain : String} {record : PersistedUrlRecord}
  {result : AdditionalDnsResult} {key : Value × Value}

/-- The rows that a record asks for are those of the lookups. -/
theorem dnsRows_of_coreRows {db : Database} {urlStatusId : ℕ}
    (hwrites : ∀ value ∈ dnsJson resolver domain, WritesJson readers write value)
    (hcollected : Collected write resolver domain result)
    (hcore : CoreFrom readers (withDns record result) key urlStatusId db) :
    DnsRows readers resolver domain key db urlStatusId where
  status := by
    obtain ⟨row, hrow, hid, hvalue⟩ := hcore.status
    refine ⟨row, hrow, hid, ?_⟩
    rw [hvalue, ← hcollected.policies]
    rfl
  nameservers := by
    rw [hcore.rows .nameservers (by decide)]
    show mergedRows (insertSingleColumnBatch _ ((parseJsonArray readers _).getD [])) [] = _
    rw [mergedRows_singleColumn]
    show ((parseJsonArray readers result.data.nameservers).getD []).eraseDups.map textRow = _
    rw [hcollected.nameservers, parseJsonArray_kept fun _ => hwrites _ (by simp [dnsJson])]
  txtRecords := by
    have hstored : storedTxts readers (withDns record result) =
        found (txtAnswer resolver domain) := by
      show ((parseJsonArray readers result.data.txtRecords).getD []).filter _ = _
      rw [hcollected.txtRecords, parseJsonArray_kept fun _ => hwrites _ (by simp [dnsJson]),
        List.filter_eq_self]
      exact fun txt htxt => decide_eq_true ((found_txtAnswer resolver domain).2 txt htxt).1
    rw [hcore.rows .txtRecords (by decide), coreRows_txtRecords, hstored]
  mxRecords := by
    have hstored : storedMxs readers (withDns record result) =
        (found (lookupMxRecords resolver domain)).map mxOf := by
      show (parseMxJsonArray readers result.data.mxRecords).getD [] = _
      rw [hcollected.mxRecords, parseMxJsonArray_kept fun _ => hwrites _ (by simp [dnsJson])]
    rw [hcore.rows .mxRecords (by decide), coreRows_mxRecords, hstored]
  cnameRecords := by
    rw [hcore.rows .cnameRecords (by decide)]
    show mergedRows (insertSingleColumnBatch _ ((parseJsonArray readers _).getD [])) [] = _
    rw [mergedRows_singleColumn]
    show ((parseJsonArray readers result.data.cnameChain).getD []).eraseDups.map textRow = _
    rw [hcollected.cnameChain, parseJsonArray_kept fun _ => hwrites _ (by simp [dnsJson])]
  ipv6Addresses := by
    rw [hcore.rows .ipv6Addresses (by decide)]
    show mergedRows (insertSingleColumnBatch _ ((parseJsonArray readers _).getD [])) [] = _
    rw [mergedRows_singleColumn]
    show ((parseJsonArray readers result.data.aaaaRecords).getD []).eraseDups.map textRow = _
    rw [hcollected.aaaaRecords, parseJsonArray_kept fun _ => hwrites _ (by simp [dnsJson])]
  caaRecords := by
    have hstored : storedCaas readers (withDns record result) =
        OnConflict.lastOf (fun caa => (caa.tag, caa.value))
          ((found (lookupCaaRecords resolver domain)).map storedCaa) := by
      show OnConflict.lastOf _ ((((result.data.caaRecords.bind readers.json).bind
        Json.asArray).getD []).map caaOf) = _
      rw [hcollected.caaRecords, caas_kept fun _ => hwrites _ (by simp [dnsJson])]
    rw [hcore.rows .caaRecords (by decide), coreRows_caaRecords, hstored]

/-- The DNS records of a page reach its tables. Every record that a lookup returned is stored once,
the priorities and flags with their numbers, a record of `CAA` with the last flag for its tag and
value, and the texts about mail in their columns. Each of the six record lookups that fails leaves
no row and is noted as a partial failure of its type, with a short message. -/
theorem dns_rows_match_lookups (readers : Readers) (write : Json → Option String)
    (resolver : Resolver) (domain : String)
    (hwrites : ∀ value ∈ dnsJson resolver domain, WritesJson readers write value)
    (record : PersistedUrlRecord) (key : Value × Value)
    (hkey : statusKey (statusRow record.urlRecord) = some key) (db : Database) :
    ∃ result, fetchAdditionalDnsRecords resolver domain write = some result ∧
      result.partialFailures.map Prod.fst = failedTypes resolver domain ∧
      (∀ failure ∈ result.partialFailures, Sanitize.BoundedMessage failure.2) ∧
      ∃ outcome after, insertUrlRecordImpl readers noFaults db (withDns record result) =
          .ok (outcome, after) ∧
        DnsRows readers resolver domain key after outcome.id := by
  obtain ⟨result, hresult, hcollected⟩ :=
    fetchAdditionalDnsRecords_collected write resolver domain
  have hkey' : statusKey (statusRow (withDns record result).urlRecord) = some key := by
    rw [statusKey_statusRow] at hkey ⊢
    exact hkey
  obtain ⟨outcome, after, hok, hcore, -⟩ := insertUrlRecordImpl_replaces readers hkey' db
  exact ⟨result, hresult, hcollected.failures, hcollected.messages, outcome, after, hok,
    dnsRows_of_coreRows hwrites hcollected hcore⟩

/-- A domain with one name server, whose `MX` records cannot be looked up. -/
def oneNameserver : Resolver
  | _, .ns => .ok [.ns "ns1.a.test."]
  | _, .mx => .error ⟨false, false, true, "request timed out"⟩
  | _, _ => .ok []

/-- The texts of the lists that occur for such a domain. -/
def smallJson : Json → Option String
  | .array [] => some "[]"
  | .array [.string text] => some ("[\"" ++ text ++ "\"]")
  | _ => none

/-- Readers of the JSON texts for one name server. -/
def smallReaders : Readers where
  json text :=
    if text = "[]" then some (.array [])
    else if text = "[\"ns1.a.test.\"]" then some (.array [.string "ns1.a.test."])
    else none
  toLowercase := Text.toAsciiLowercase

/-- The readers of the example read what is written. -/
theorem smallReaders_writes :
    ∀ value ∈ dnsJson oneNameserver "a.test", WritesJson smallReaders smallJson value := by
  have hnone : WritesJson smallReaders smallJson (.array []) := ⟨"[]", rfl, by decide, rfl⟩
  have hone : WritesJson smallReaders smallJson (.array [.string "ns1.a.test."]) :=
    ⟨"[\"ns1.a.test.\"]", rfl, by decide, rfl⟩
  have hjson : dnsJson oneNameserver "a.test" =
      [.array [.string "ns1.a.test."], .array [], .array [], .array [], .array [], .array []] := by
    rfl
  intro value hvalue
  rw [hjson] at hvalue
  rcases List.mem_cons.mp hvalue with rfl | hvalue
  · exact hone
  · have hempty : value = .array [] := by simpa using hvalue
    exact hempty ▸ hnone

/-- Its name server is stored, and the failure is noted. -/
theorem dns_rows_match_lookups_nameserver :
    ∃ result, fetchAdditionalDnsRecords oneNameserver "a.test" smallJson = some result ∧
      result.partialFailures.map Prod.fst = [.dnsMxLookupError] ∧
      (∀ failure ∈ result.partialFailures, Sanitize.BoundedMessage failure.2) ∧
      ∃ outcome after, insertUrlRecordImpl smallReaders noFaults .empty
          (withDns (twoPages .first) result) = .ok (outcome, after) ∧
        DnsRows smallReaders oneNameserver "a.test" (twoKeys .first) after outcome.id :=
  dns_rows_match_lookups smallReaders smallJson oneNameserver "a.test" smallReaders_writes
    (twoPages .first) (twoKeys .first) (twoPages_key .first) .empty

end DomainStatus.Storage
