import DomainStatus.Whois.Lookup

/-!
# The size of a WHOIS cache file

How long the text of a cache entry is, and whether a load accepts it. The raw text of a response is
bounded before it is escaped, and the file after. Read `len_pretty_toDoc` first: what each part of
an entry adds to the file. The raw text can be there twice, since an organization that is taken
from it has no bound of its own.
-/

namespace DomainStatus.Whois

open Chrono JsonText Text

/-! ## The length of an entry -/

/-- The sizes of the keys. -/
theorem len_keys :
    len (escaped "result".toList) = 6 ∧ len (escaped "cached_at".toList) = 9 ∧
      len (escaped "domain".toList) = 6 ∧ len (escaped "creation_date".toList) = 13 ∧
      len (escaped "expiration_date".toList) = 15 ∧ len (escaped "updated_date".toList) = 12 ∧
      len (escaped "registrar".toList) = 9 ∧ len (escaped "registrant_country".toList) = 18 ∧
      len (escaped "registrant_org".toList) = 14 ∧ len (escaped "status".toList) = 6 ∧
      len (escaped "nameservers".toList) = 11 ∧ len (escaped "raw_text".toList) = 8 ∧
      len (escaped "secs_since_epoch".toList) = 16 ∧
      len (escaped "nanos_since_epoch".toList) = 17 := by
  decide

/-- The bytes of an optional value, which is `null` when it is missing. -/
def optionLen {α : Type} (valueLen : α → ℕ) : Option α → ℕ
  | none => 4
  | some value => valueLen value

/-- The bytes of a number. -/
def integerLen (value : ℤ) : ℕ :=
  len (numeral value)

/-- The bytes of a text with its quotes. Each escape makes it longer. -/
def stringLen (text : String) : ℕ :=
  len text.toList + text.toList.countP hasShortEscape + 5 * text.toList.countP hasLongEscape + 2

/-- The size of a text. -/
theorem len_pretty_string (depth : ℕ) (text : String) :
    len (pretty depth (.string text)) = stringLen text := by
  rw [pretty, len_quoted, len_escaped, stringLen]

/-- The size of a number. -/
theorem len_pretty_integer (depth : ℕ) (value : ℤ) :
    len (pretty depth (.integer value)) = integerLen value := by
  rw [pretty, integerLen]

/-- The size of a value that may be missing. -/
theorem len_pretty_optionDoc {α : Type} {depth : ℕ} {doc : α → Doc} {valueLen : α → ℕ}
    (h : ∀ value, len (pretty depth (doc value)) = valueLen value) (value : Option α) :
    len (pretty depth (optionDoc doc value)) = optionLen valueLen value := by
  cases value with
  | none => rfl
  | some value => exact h value

/-- The bytes of an entry that names no registrar, status or name server. The keys, the
punctuation and the indentation take 304 of them, and the three missing values four each. -/
theorem len_pretty_toDoc {entry : WhoisCacheEntry} (hregistrar : entry.result.registrar = none)
    (hstatus : entry.result.status = none) (hnameservers : entry.result.nameservers = none) :
    len (pretty 0 entry.toDoc) =
      316 + optionLen integerLen entry.result.creationDate +
        optionLen integerLen entry.result.expirationDate +
        optionLen integerLen entry.result.updatedDate +
        optionLen stringLen entry.result.registrantCountry +
        optionLen stringLen entry.result.registrantOrg +
        optionLen stringLen entry.result.rawText + integerLen (entry.cachedAt / 10 ^ 9 : ℕ) +
        integerLen (entry.cachedAt % 10 ^ 9 : ℕ) + stringLen entry.domain := by
  have hinteger := len_pretty_optionDoc (len_pretty_integer 2)
  have hstring := len_pretty_optionDoc (len_pretty_string 2)
  have hlist : len (pretty 2 (optionDoc listDoc none)) = 4 := rfl
  have hnone : optionLen stringLen none = 4 := rfl
  simp only [WhoisCacheEntry.toDoc, WhoisCacheResult.toDoc, systemTimeDoc, hregistrar, hstatus,
    hnameservers, len_pretty_object, len_prettyFields_cons, len_prettyFields_nil, len_keys,
    len_opening, if_true, if_false, Bool.false_eq_true, Nat.zero_add, Nat.reduceAdd, hinteger,
    hstring, hlist, hnone, len_pretty_integer, len_pretty_string]
  omega

/-! ## Reading an entry back -/

variable {ι : Type} [DecidableEq ι]

/-- The file of an entry is small enough, and each load that finds it before the entry expires
returns the entry and leaves the files alone. -/
structure ReadsBack (place : Place ι) (json : Codec WhoisCacheEntry) (entry : WhoisCacheEntry)
    (stored : StoredFile) : Prop where
  size_le : stored.content.utf8ByteSize ≤ maxWhoisCacheFileSize
  load_eq : ∀ (now : ℕ) (keeps : ι → Bool) (files : CacheFiles ι) (file : ι),
    place.fileOf entry.domain = some file → files.lookup file = some stored →
      (now - entry.cachedAt) / 10 ^ 9 < cacheTtlSecs →
        load place json now keeps entry.domain files = (.ok (some entry), files)

/-- The limit on the file is all that keeps a load from returning an entry. -/
theorem readsBack_iff {place : Place ι} {json : Codec WhoisCacheEntry} {entry : WhoisCacheEntry}
    {stored : StoredFile} (hcontent : stored.content = json.encode entry) :
    ReadsBack place json entry stored ↔
      (json.encode entry).utf8ByteSize ≤ maxWhoisCacheFileSize := by
  constructor
  · intro h
    rw [← hcontent]
    exact h.size_le
  · intro h
    refine ⟨by rwa [hcontent], fun now keeps files file hfile hstored hfresh => ?_⟩
    have hyoung : Cache.durationExceedsTtl (now - entry.cachedAt) cacheTtlSecs = false := by
      simpa [Cache.durationExceedsTtl] using hfresh
    exact load_stored hfile hstored hcontent h hyoung

/-- A response that leaves the registrar, the status and the name servers open. -/
def NamesNothing (response : WhoisResponse) : Prop :=
  ∀ parsed ∈ response.parsedData,
    parsed.registrar = none ∧ parsed.status = [] ∧ parsed.nameServers = []

/-- A date of a response in milliseconds. -/
def dateMillis (parsers : DateParsers) (response : WhoisResponse)
    (date : ParsedWhoisPayload → Option String) : Option ℤ :=
  ((response.parsedData.bind date).bind (parseWhoisDate parsers)).map DateTime.timestampMillis

/-- The country that a raw text gives for the registrant. -/
def rawCountry (rawText : String) : Option String :=
  isoAlpha2Country (extractRawField rawText ["Registrant Country", "Registrant Country Code"])

/-- The organization that a raw text gives for the registrant. -/
def rawOrg (rawText : String) : Option String :=
  sanitizeRegistrantOrg (extractRawField rawText
    ["Registrant Organization", "Registrant Org", "Registrant organisation"])

/-- The bytes that the file of a response needs when it leaves all else open. -/
def cacheFileLen (parsers : DateParsers) (response : WhoisResponse) (savedAt : ℕ)
    (domain : String) : ℕ :=
  let rawText := boundRawText response.rawData
  316 + optionLen integerLen (dateMillis parsers response (·.creationDate)) +
    optionLen integerLen (dateMillis parsers response (·.expirationDate)) +
    optionLen integerLen (dateMillis parsers response (·.updatedDate)) +
    optionLen stringLen (rawCountry rawText) + optionLen stringLen (rawOrg rawText) +
    stringLen rawText + integerLen (savedAt / 10 ^ 9 : ℕ) + integerLen (savedAt % 10 ^ 9 : ℕ) +
    stringLen domain

/-- The raw text gives the country and the organisation. -/
theorem enrichResultFromRawText_eq {result : WhoisResult} {rawText : String}
    (hraw : result.rawText = some rawText) (hcountry : result.registrantCountry = none)
    (horg : result.registrantOrg = none) :
    enrichResultFromRawText result =
      { result with registrantCountry := rawCountry rawText, registrantOrg := rawOrg rawText } := by
  simp only [enrichResultFromRawText, hraw, hcountry, horg, Option.none_or, rawCountry, rawOrg]

/-- What is converted of an answer that names nothing. -/
theorem convertParsedData_eq (parsers : DateParsers) {response : WhoisResponse}
    (h : NamesNothing response) :
    convertParsedData parsers response =
      { creationDate := (response.parsedData.bind (·.creationDate)).bind (parseWhoisDate parsers)
        expirationDate :=
          (response.parsedData.bind (·.expirationDate)).bind (parseWhoisDate parsers)
        updatedDate := (response.parsedData.bind (·.updatedDate)).bind (parseWhoisDate parsers)
        registrantCountry := rawCountry (boundRawText response.rawData)
        registrantOrg := rawOrg (boundRawText response.rawData)
        rawText := some (boundRawText response.rawData) } := by
  unfold convertParsedData convertPayload WhoisPayload.ofResponse
  cases hparsed : response.parsedData with
  | none => exact enrichResultFromRawText_eq rfl rfl rfl
  | some parsed =>
      obtain ⟨hregistrar, hstatus, hnameservers⟩ := h parsed hparsed
      simp only [hregistrar, hstatus, hnameservers]
      exact enrichResultFromRawText_eq rfl rfl rfl

/-- The bytes of the file that the conversion of a response is saved in. -/
theorem utf8ByteSize_convertParsedData (parsers : DateParsers) {response : WhoisResponse}
    (h : NamesNothing response) (savedAt : ℕ) (domain : String) :
    (toStringPretty (newEntry savedAt domain (convertParsedData parsers response))).utf8ByteSize =
      cacheFileLen parsers response savedAt domain := by
  rw [utf8ByteSize_toStringPretty, convertParsedData_eq parsers h, len_pretty_toDoc rfl rfl rfl]
  simp only [newEntry, WhoisCacheResult.ofResult, cacheFileLen, dateMillis, optionLen]

/-- A call converts a response that leaves the registrar, the status and the name servers open, and
saves the result. The file can be read back exactly when the raw text with its escapes, and the
fields that are taken from it once more, leave enough room. -/
theorem whois_entry_reads_back_iff (place : Place ι) (json : Codec WhoisCacheEntry)
    (hjson : WritesPretty json) (parsers : DateParsers) (around : Surroundings ι) (domain : String)
    (response : WhoisResponse) (saveCount : ℕ) (files : CacheFiles ι) (result : WhoisResult)
    (hnothing : NamesNothing response)
    (hresult : (lookupWhoisWithLookup place json parsers around domain (.response response)
      saveCount files).result = .ok (some result))
    (hcalled : (lookupWhoisWithLookup place json parsers around domain (.response response)
      saveCount files).called = true)
    (file : ι) (stored : StoredFile) (hfile : place.fileOf domain = some file)
    (hstored : (lookupWhoisWithLookup place json parsers around domain (.response response)
      saveCount files).files.lookup file = some stored) :
    ReadsBack place json (newEntry around.saveTime domain result) stored ↔
      cacheFileLen parsers response around.saveTime domain ≤ maxWhoisCacheFileSize := by
  obtain ⟨⟨converted, hconverted, rfl⟩, -, before, -, -, hfiles⟩ := lookup_miss hresult hcalled
  obtain rfl : response = converted := LookupAnswer.response.inj hconverted
  have hcontent : stored.content =
      json.encode (newEntry around.saveTime domain (convertParsedData parsers response)) := by
    rw [hfiles] at hstored
    rcases files_save hstored with ⟨-, hcontent⟩ | ⟨hother, -⟩
    · exact hcontent
    · exact absurd hfile hother
  rw [readsBack_iff hcontent, hjson, utf8ByteSize_convertParsedData parsers hnothing]

/-- A response without parsed data. -/
def plainResponse : WhoisResponse where
  rawData := "Domain: example.com\nRegistrant Country: us\n"
  parsedData := none
  lookupStatus := .found

/-- Parsers that know no date. -/
def noParsers : DateParsers where
  dateTime := fun _ _ => none
  naiveDateTime := fun _ _ => none
  naiveDate := fun _ _ => none
  rfc3339 := fun _ => none

/-- The file of `plainResponse` can be read back. -/
theorem whois_entry_reads_back_plain :
    ReadsBack plainPlace prettyJson
      (newEntry 0 "example.com" (convertParsedData noParsers plainResponse))
      ⟨toStringPretty (newEntry 0 "example.com" (convertParsedData noParsers plainResponse)),
        0⟩ := by
  have hcall := lookup_first plainPlace prettyJson noParsers plainResponse 0 0 (fun _ => false)
    fileOf_example rfl (by decide +kernel)
  refine (whois_entry_reads_back_iff plainPlace prettyJson writesPretty_prettyJson noParsers
    ⟨0, 0, 0, fun _ => false⟩ "example.com" plainResponse 0 ∅ _ ?_ (by rw [hcall]) (by rw [hcall])
    "/cache/whois/example_com.json" _ fileOf_example ?_).mpr ?_
  · intro parsed hparsed
    cases hparsed
  · rw [hcall, AList.lookup_insert]
    rfl
  · decide +kernel

/-- A response of as many quotes as the raw text may hold. -/
def quotesResponse : WhoisResponse where
  rawData := String.ofList (List.replicate maxWhoisRawTextSize '"')
  parsedData := none
  lookupStatus := .found

/-- The answer is as long as is kept. -/
theorem len_quotes : len quotesResponse.rawData.toList = maxWhoisRawTextSize := by
  rw [quotesResponse, String.toList_ofList, len_replicate]
  exact Nat.mul_one _

/-- Nothing of the answer is cut off. -/
theorem boundRawText_quotes : boundRawText quotesResponse.rawData = quotesResponse.rawData := by
  rw [boundRawText, if_pos (Nat.le_of_eq len_quotes)]

/-- Each quote is escaped, so that the file is larger than any load accepts. -/
theorem lt_cacheFileLen_quotes (savedAt : ℕ) (domain : String) :
    maxWhoisCacheFileSize < cacheFileLen noParsers quotesResponse savedAt domain := by
  have hescapes : quotesResponse.rawData.toList.countP hasShortEscape = maxWhoisRawTextSize := by
    rw [quotesResponse, String.toList_ofList, List.countP_replicate, if_pos (by decide)]
  have hraw : 2 * maxWhoisRawTextSize < stringLen quotesResponse.rawData := by
    rw [stringLen, len_quotes, hescapes]
    omega
  have hlimits : maxWhoisCacheFileSize = 2 * maxWhoisRawTextSize := rfl
  simp only [cacheFileLen, boundRawText_quotes]
  omega

/-- A text is enough for a result to be used. -/
theorem usable_of_rawText {result : WhoisResult} {text : String}
    (hraw : result.rawText = some text) (htrim : Text.trim text ≠ "") :
    whoisResultIsUsable result = true := by
  simp [whoisResultIsUsable, hraw, htrim]

/-- The answer names nothing. -/
theorem namesNothing_quotes : NamesNothing quotesResponse :=
  fun parsed hparsed => by cases hparsed

/-- The answer can be used. -/
theorem usable_quotes :
    whoisResultIsUsable (convertParsedData noParsers quotesResponse) = true := by
  have hraw : (convertParsedData noParsers quotesResponse).rawText =
      some quotesResponse.rawData := by
    rw [convertParsedData_eq noParsers namesNothing_quotes, boundRawText_quotes]
  refine usable_of_rawText hraw ?_
  have htrim : Text.trim quotesResponse.rawData = quotesResponse.rawData := by
    rw [Text.trim, trimChars_eq_self, String.ofList_toList]
    intro c hc
    rw [quotesResponse, String.toList_ofList] at hc
    rw [List.eq_of_mem_replicate hc]
    decide
  rw [htrim]
  intro h
  have hlen := len_quotes
  rw [h] at hlen
  have hpos : 0 < maxWhoisRawTextSize := by simp [maxWhoisRawTextSize]
  have hempty : len "".toList = 0 := rfl
  omega

/-- The response of quotes is saved, and its file is too large to be read back. -/
theorem whois_quotes_not_read_back :
    ¬ ∀ (place : Place String) (json : Codec WhoisCacheEntry) (_ : WritesPretty json)
      (parsers : DateParsers) (around : Surroundings String) (domain : String)
      (response : WhoisResponse) (saveCount : ℕ) (files : CacheFiles String)
      (result : WhoisResult), NamesNothing response →
      (lookupWhoisWithLookup place json parsers around domain (.response response) saveCount
        files).result = .ok (some result) →
      (lookupWhoisWithLookup place json parsers around domain (.response response) saveCount
        files).called = true →
      ∀ file stored, place.fileOf domain = some file →
        (lookupWhoisWithLookup place json parsers around domain (.response response) saveCount
          files).files.lookup file = some stored →
        ReadsBack place json (newEntry around.saveTime domain result) stored := by
  intro h
  have hcall := lookup_first plainPlace prettyJson noParsers quotesResponse 0 0 (fun _ => false)
    fileOf_example rfl usable_quotes
  have hread := h plainPlace prettyJson writesPretty_prettyJson noParsers
    ⟨0, 0, 0, fun _ => false⟩ "example.com" quotesResponse 0 ∅ _ namesNothing_quotes
    (by rw [hcall]) (by rw [hcall]) "/cache/whois/example_com.json" _ fileOf_example
    (by rw [hcall, AList.lookup_insert])
  have hsize := hread.size_le
  change (toStringPretty _).utf8ByteSize ≤ _ at hsize
  rw [utf8ByteSize_convertParsedData noParsers namesNothing_quotes] at hsize
  exact absurd hsize (Nat.not_le.mpr (lt_cacheFileLen_quotes 0 "example.com"))

end DomainStatus.Whois
