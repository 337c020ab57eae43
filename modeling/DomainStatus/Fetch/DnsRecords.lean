import DomainStatus.Dns.Records
import DomainStatus.Lib.Json
import DomainStatus.Storage.CoreSatellites

/-!
# DNS records of a page

The lookups of `src/dns/records.rs`, and `fetch_additional_dns_records` of
`src/fetch/dns/additional.rs`, which collects them for a domain. The records of a lookup are kept as
a text in JSON. A lookup that fails is noted as a partial failure. An outer result of `none` stands
for a panic of a slice.
-/

namespace DomainStatus.Dns

open ErrorHandling Storage

/-! ## Lookups -/

/-- The types of records that are looked up. -/
inductive RecordType where
  | ns | txt | mx | cname | aaaa | caa
  deriving DecidableEq

/-- The data of an answer. Names and addresses are given by their texts. -/
inductive RecordData where
  | ns (name : String)
  | txt (txtData : List CharacterString)
  | mx (preference : UInt16) (exchange : String)
  | cname (name : String)
  | aaaa (address : String)
  | caa (issuerCritical : Bool) (tag : String) (value : List UInt8)
  | other

/-- What the resolver answers to the question for a domain and a type of record. -/
abbrev Resolver := String → RecordType → Except NetError (List RecordData)

variable (resolver : Resolver) (domain : String)

/-- The records of a type that the mapping keeps, or why there are none. -/
def lookupMapped {T : Type} (recordType : RecordType) (map : RecordData → Option T) :
    Except NetError (List T) :=
  match resolver domain recordType with
  | .ok answers => .ok (answers.filterMap map)
  | .error err => mapLookupError err

/-- The names of the name servers. -/
def lookupNsRecords : Except NetError (List String) :=
  lookupMapped resolver domain .ns fun
    | .ns name => some name
    | _ => none

/-- `lookup_mx_records`: by priority, in the order of the answer where priorities are equal. -/
def lookupMxRecords : Except NetError (List (UInt16 × String)) :=
  (lookupMapped resolver domain .mx fun
    | .mx preference exchange => some (preference, exchange)
    | _ => none).map fun records => records.mergeSort fun left right => left.1 ≤ right.1

/-- The names that the domain is an alias of. -/
def lookupCnameRecords : Except NetError (List String) :=
  lookupMapped resolver domain .cname fun
    | .cname name => some name
    | _ => none

/-- The addresses of IPv6. -/
def lookupAaaaRecords : Except NetError (List String) :=
  lookupMapped resolver domain .aaaa fun
    | .aaaa address => some address
    | _ => none

/-- The flag, the tag and the value of each CAA record. -/
def lookupCaaRecords : Except NetError (List (UInt8 × String × String)) :=
  lookupMapped resolver domain .caa fun
    | .caa issuerCritical tag value =>
        some (if issuerCritical then 128 else 0, tag, String.ofList (Utf8.decodeLossy value))
    | _ => none

/-- The record as the reader of TXT records sees it. -/
def RecordData.toRData : RecordData → RData
  | .txt txtData => .txt txtData
  | _ => .other 0

/-- The answer to a question for `TXT`. -/
def lookupTxts : Option (Except NetError (List String)) :=
  (lookupTxtRecords ((resolver domain .txt).map (List.map RecordData.toRData))).map fun records =>
    records.map (List.map String.ofList)

/-! ## Records in texts -/

/-- The first record that starts with a version tag. -/
def extractFirst (txtRecords : List String) (tag : String) : Option String :=
  (txtRecords.find? fun txt => startsWithTag txt tag).map Text.trim

/-- The SPF record among the TXT records. -/
def extractSpfRecord (txtRecords : List String) : Option String :=
  extractFirst txtRecords "v=spf1"

/-- The DMARC record among the TXT records of `_dmarc`. -/
def extractDmarcRecord (txtRecords : List String) : Option String :=
  extractFirst txtRecords "v=dmarc1"

/-- The MTA-STS record among the TXT records of `_mta-sts`. -/
def extractMtaStsRecord (txtRecords : List String) : Option String :=
  extractFirst txtRecords "v=stsv1"

/-- The TLS-RPT record among the TXT records of `_smtp._tls`. -/
def extractTlsRptRecord (txtRecords : List String) : Option String :=
  extractFirst txtRecords "v=tlsrptv1"

/-- The BIMI record among the TXT records of `default._bimi`. -/
def extractBimiRecord (txtRecords : List String) : Option String :=
  extractFirst txtRecords "v=bimi1"

/-! ## Collected records -/

/-- `AdditionalDnsData`. -/
structure AdditionalDnsData where
  nameservers : Option String
  txtRecords : Option String
  mxRecords : Option String
  spfRecord : Option String
  dmarcRecord : Option String
  mtaStsRecord : Option String
  tlsRptRecord : Option String
  bimiRecord : Option String
  cnameChain : Option String
  aaaaRecords : Option String
  caaRecords : Option String

/-- The collected records, with the lookups that failed and why. -/
structure AdditionalDnsResult where
  data : AdditionalDnsData
  partialFailures : List (ErrorType × String)

/-- The JSON of a list of texts, of records for `MX`, and of records for `CAA`. The crate
`serde_json` keeps the fields of an object in the order of their names. -/
def textsJson (texts : List String) : Json :=
  .array (texts.map .string)

/-- The mail exchanges as they are stored. -/
def mxJson (records : List (UInt16 × String)) : Json :=
  .array (records.map fun mx =>
    .object [("hostname", .string mx.2), ("priority", .posInt mx.1.toUInt64)])

/-- The CAA records as they are stored. -/
def caaJson (records : List (UInt8 × String × String)) : Json :=
  .array (records.map fun caa =>
    .object [("flag", .posInt caa.1.toUInt64), ("tag", .string caa.2.1),
      ("value", .string caa.2.2)])

/-- The records of a lookup. -/
def found {T : Type} : Except NetError (List T) → List T
  | .ok records => records
  | .error _ => []

variable (write : Json → Option String)

/-- The text of a value, or another text where it cannot be written. -/
def serializeJsonWithDefault (value : Json) (default : String) : String :=
  (write value).getD default

/-- The text that is kept of a lookup. -/
def kept {T : Type} (toJson : List T → Json) (looked : Except NetError (List T)) : Option String :=
  if (found looked).isEmpty then none
  else some (serializeJsonWithDefault write (toJson (found looked)) "[]")

/-- The partial failure that is noted for a lookup. -/
def failureOf {T : Type} (errorType : ErrorType) (label : String)
    (looked : Except NetError (List T)) : Option (List (ErrorType × String)) :=
  match looked with
  | .ok _ => some []
  | .error err =>
      (Sanitize.sanitizeAndTruncateErrorMessage ("Failed to lookup " ++ label ++ " records for " ++
        domain ++ ": " ++ err.text).toList).map fun message => [(errorType, String.ofList message)]

/-- A record in the answer to the question for a subdomain. -/
def subdomainRecord (label : String) (extract : List String → Option String) :
    Option (Option String) :=
  (lookupTxts resolver (label ++ "." ++ domain)).map fun looked => extract (found looked)

/-- The record for `DMARC` among the records of the domain, else that of the subdomain for it. -/
def lookupDmarcRecord (txtRecords : List String) : Option (Option String) :=
  match extractDmarcRecord txtRecords with
  | some record => some (some record)
  | none => subdomainRecord resolver domain "_dmarc" extractDmarcRecord

/-- Looks up all records of a domain. A lookup that fails is noted and the others go on. -/
def fetchAdditionalDnsRecords : Option AdditionalDnsResult := do
  let nsResult := lookupNsRecords resolver domain
  let txtResult ← lookupTxts resolver domain
  let mxResult := lookupMxRecords resolver domain
  let cnameResult := lookupCnameRecords resolver domain
  let aaaaResult := lookupAaaaRecords resolver domain
  let caaResult := lookupCaaRecords resolver domain
  let nsFailure ← failureOf domain .dnsNsLookupError "NS" nsResult
  let txtFailure ← failureOf domain .dnsTxtLookupError "TXT" txtResult
  let mxFailure ← failureOf domain .dnsMxLookupError "MX" mxResult
  let cnameFailure ← failureOf domain .dnsCnameLookupError "CNAME" cnameResult
  let aaaaFailure ← failureOf domain .dnsAaaaLookupError "AAAA" aaaaResult
  let caaFailure ← failureOf domain .dnsCaaLookupError "CAA" caaResult
  let dmarcRecord ← lookupDmarcRecord resolver domain (found txtResult)
  let mtaStsRecord ← subdomainRecord resolver domain "_mta-sts" extractMtaStsRecord
  let tlsRptRecord ← subdomainRecord resolver domain "_smtp._tls" extractTlsRptRecord
  let bimiRecord ← subdomainRecord resolver domain "default._bimi" extractBimiRecord
  some
    { data :=
        { nameservers := kept write textsJson nsResult
          txtRecords := kept write textsJson txtResult
          mxRecords := kept write mxJson mxResult
          spfRecord := extractSpfRecord (found txtResult)
          dmarcRecord
          mtaStsRecord
          tlsRptRecord
          bimiRecord
          cnameChain := kept write textsJson cnameResult
          aaaaRecords := kept write textsJson aaaaResult
          caaRecords := kept write caaJson caaResult }
      partialFailures := nsFailure ++ txtFailure ++ mxFailure ++ cnameFailure ++ aaaaFailure ++
        caaFailure }

end DomainStatus.Dns
