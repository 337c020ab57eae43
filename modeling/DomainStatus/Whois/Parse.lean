import DomainStatus.Utils.Sanitize
import DomainStatus.Whois.Types
import Mathlib.Logic.Function.Iterate

/-!
# From a WHOIS response to a result

The conversion of a response, after `src/whois/parse.rs`. What the response lacks is taken from its
raw text. Read `enrich_convertParsedData` first: doing so again changes nothing.
-/

namespace DomainStatus.Whois

open Chrono

/-- `MAX_WHOIS_RAW_TEXT_SIZE`. -/
def maxWhoisRawTextSize : ℕ :=
  256 * 1024

/-- Shortens a text to a number of bytes, the suffix included. -/
def truncateUtf8WithSuffix (value : List Char) (maxLen : ℕ) (suffix : List Char) : List Char :=
  if Text.len value ≤ maxLen then value
  else if maxLen = 0 then []
  else if maxLen ≤ Text.len suffix then Text.truncateAtCharBoundary maxLen suffix
  else Text.truncateAtCharBoundary (maxLen - Text.len suffix) value ++ suffix

/-- The cuts never panic, so that they can be read as choices of the longest start that fits. -/
theorem truncateUtf8WithSuffix_of_slices (value : List Char) (maxLen : ℕ) (suffix : List Char) :
    Sanitize.truncateUtf8WithSuffix value maxLen suffix =
      some (truncateUtf8WithSuffix value maxLen suffix) := by
  rw [Sanitize.truncateUtf8WithSuffix, truncateUtf8WithSuffix]
  simp only [Sanitize.truncateUtf8, Sanitize.truncateAtCharBoundary_eq, Option.map_some]
  split_ifs <;> rfl

/-- The raw text of a response, shortened where it is too long. -/
def boundRawText (rawText : String) : String :=
  if Text.len rawText.toList ≤ maxWhoisRawTextSize then rawText
  else String.ofList (truncateUtf8WithSuffix rawText.toList maxWhoisRawTextSize
    "... (truncated raw WHOIS response)".toList)

/-- The classified outcome of a lookup. -/
inductive LookupStatus where
  | found | notFound | rateLimited
  deriving DecidableEq

/-- The parsed part of a response. -/
structure ParsedWhoisPayload where
  registrar : Option String := none
  creationDate : Option String := none
  expirationDate : Option String := none
  updatedDate : Option String := none
  nameServers : List String := []
  status : List String := []

/-- What the program reads of a response. -/
structure WhoisResponse where
  rawData : String
  parsedData : Option ParsedWhoisPayload
  lookupStatus : LookupStatus

/-- A response with its raw text bounded. -/
structure WhoisPayload where
  rawText : String
  parsed : Option ParsedWhoisPayload

/-- What is kept of a response. -/
def WhoisPayload.ofResponse (response : WhoisResponse) : WhoisPayload where
  rawText := boundRawText response.rawData
  parsed := response.parsedData

/-- The value of a line of the raw text, when the line has the label. -/
def lineValue (line : List Char) (label : String) : Option String :=
  (Text.splitOnce ':' (Text.trimChars line)).bind fun (fieldName, value) =>
    if Text.eqIgnoreAsciiCase (String.ofList (Text.trimChars fieldName)) label then
      let value := Text.trimChars value
      if value = [] then none else some (String.ofList value)
    else none

/-- The value of the first line that has one of the labels and a value. -/
def extractRawField (rawText : String) (labels : List String) : Option String :=
  (Text.lines rawText.toList).findSome? fun line => labels.findSome? (lineValue line)

/-- Keeps a country code of two letters, in upper case. -/
def isoAlpha2Country (value : Option String) : Option String :=
  value.bind fun value =>
    let trimmed := Text.trim value
    if Text.len trimmed.toList = 2 ∧ trimmed.toList.all Char.isAlpha then
      some (Text.toAsciiUppercase trimmed)
    else none

/-- Texts that stand in for an organization. -/
def isPrivacyOrgProse (value : String) : Bool :=
  let upper := Text.toAsciiUppercase value
  let contains := fun needle : String => Text.contains upper.toList needle.toList
  contains "REDACT" || contains "PRIVACY PROTECTION" || contains "WHOIS PRIVACY" ||
    contains "FOR PRIVACY" || contains "DATA PROTECTED" || upper == "PRIVACY" || upper == "REDACTED"

/-- An organization that is not blank and does not stand for privacy. -/
def sanitizeRegistrantOrg (value : Option String) : Option String :=
  value.bind fun value =>
    let trimmed := Text.trim value
    if trimmed = "" ∨ isPrivacyOrgProse trimmed then none else some trimmed

/-- Fills in the organization and the country of the registrant from the raw text. -/
def enrichResultFromRawText (result : WhoisResult) : WhoisResult :=
  match result.rawText with
  | none =>
      { result with
        registrantCountry := isoAlpha2Country result.registrantCountry
        registrantOrg := sanitizeRegistrantOrg result.registrantOrg }
  | some rawText =>
      let org := result.registrantOrg.or (extractRawField rawText
        ["Registrant Organization", "Registrant Org", "Registrant organisation"])
      let country := result.registrantCountry.or (extractRawField rawText
        ["Registrant Country", "Registrant Country Code"])
      { result with
        registrantCountry := isoAlpha2Country country
        registrantOrg := sanitizeRegistrantOrg org }

/-- The parsers of `chrono` for a text and a format, with the time zone dropped, and for RFC 3339.
-/
structure DateParsers where
  dateTime : String → String → Option DateTime
  naiveDateTime : String → String → Option DateTime
  naiveDate : String → String → Option DateTime
  rfc3339 : String → Option DateTime

/-- The first format that a parser accepts. -/
def parseDateString (parsers : DateParsers) (dateStr : String) : Option DateTime :=
  ["%Y-%m-%dT%H:%M:%S%.fZ", "%Y-%m-%dT%H:%M:%SZ", "%Y-%m-%d %H:%M:%S", "%Y-%m-%d", "%d-%b-%Y",
    "%d/%m/%Y"].findSome? fun format =>
      (parsers.dateTime dateStr format).or
        ((parsers.naiveDateTime dateStr format).or (parsers.naiveDate dateStr format))

/-- The epoch itself stands for an unknown date. -/
def parseWhoisDate (parsers : DateParsers) (dateStr : String) : Option DateTime :=
  ((parseDateString parsers dateStr).or (parsers.rfc3339 dateStr)).filter (·.timestamp ≠ 0)

/-- The result with its dates parsed, enriched from the raw text. -/
def convertPayload (parsers : DateParsers) (payload : WhoisPayload) : WhoisResult :=
  match payload.parsed with
  | none => enrichResultFromRawText { rawText := some payload.rawText }
  | some parsed =>
      enrichResultFromRawText
        { creationDate := parsed.creationDate.bind (parseWhoisDate parsers)
          expirationDate := parsed.expirationDate.bind (parseWhoisDate parsers)
          updatedDate := parsed.updatedDate.bind (parseWhoisDate parsers)
          registrar := parsed.registrar
          status := parsed.status
          nameservers := parsed.nameServers
          rawText := some payload.rawText }

/-- The result of a response. -/
def convertParsedData (parsers : DateParsers) (response : WhoisResponse) : WhoisResult :=
  convertPayload parsers (.ofResponse response)

/-! ## Enriching twice -/

/-- An ASCII letter in upper case is one byte long, a letter and no whitespace. -/
theorem toUpper_of_isAlpha {c : Char} (h : c.isAlpha = true) :
    c.toUpper.isAlpha = true ∧ c.toUpper.toUpper = c.toUpper ∧ c.toUpper.utf8Size = c.utf8Size ∧
      Text.isWhitespace c.toUpper = false := by
  have hall : ∀ n < 128, (Char.ofNat n).isAlpha = true →
      (Char.ofNat n).toUpper.isAlpha = true ∧
        (Char.ofNat n).toUpper.toUpper = (Char.ofNat n).toUpper ∧
        (Char.ofNat n).toUpper.utf8Size = (Char.ofNat n).utf8Size ∧
        Text.isWhitespace (Char.ofNat n).toUpper = false := by
    decide +kernel
  have hascii : c.toNat < 128 := by
    rcases Bool.or_eq_true_iff.mp (show (c.isUpper || c.isLower) = true from h) with hupper | hlower
    · have hle : c.val ≤ 90 := (of_decide_eq_true hupper).2
      exact lt_of_le_of_lt (UInt32.le_iff_toNat_le.mp hle) (by decide)
    · have hle : c.val ≤ 122 := of_decide_eq_true (Bool.and_eq_true_iff.mp hlower).2
      exact lt_of_le_of_lt (UInt32.le_iff_toNat_le.mp hle) (by decide)
  have hc := hall c.toNat hascii
  rw [Char.ofNat_toNat] at hc
  exact hc h

/-- A country code is read as itself. -/
theorem isoAlpha2Country_idem (value : Option String) :
    isoAlpha2Country (isoAlpha2Country value) = isoAlpha2Country value := by
  cases value with
  | none => rfl
  | some value =>
      simp only [isoAlpha2Country, Option.bind_some]
      split
      case isTrue hcode =>
        obtain ⟨hlen, hletters⟩ := hcode
        set letters := (Text.trim value).toList with hdef
        have halpha : ∀ c ∈ letters, c.isAlpha = true := List.all_eq_true.mp hletters
        have hupper :
            (Text.toAsciiUppercase (Text.trim value)).toList = letters.map Char.toUpper := by
          simp [Text.toAsciiUppercase, hdef]
        have htrim : Text.trim (Text.toAsciiUppercase (Text.trim value)) =
            Text.toAsciiUppercase (Text.trim value) := by
          rw [Text.trim, hupper, Text.trimChars_eq_self]
          · rw [← hupper, String.ofList_toList]
          · intro c hc
            obtain ⟨letter, hletter, rfl⟩ := List.mem_map.mp hc
            exact (toUpper_of_isAlpha (halpha letter hletter)).2.2.2
        have hsize : Text.len (letters.map Char.toUpper) = Text.len letters := by
          rw [Text.len, Text.len, List.map_map]
          exact congrArg List.sum (List.map_congr_left fun letter hletter =>
            (toUpper_of_isAlpha (halpha letter hletter)).2.2.1)
        have hall : (letters.map Char.toUpper).all Char.isAlpha = true := by
          rw [List.all_map, List.all_eq_true]
          exact fun letter hletter => (toUpper_of_isAlpha (halpha letter hletter)).1
        have hagain : Text.toAsciiUppercase (Text.toAsciiUppercase (Text.trim value)) =
            Text.toAsciiUppercase (Text.trim value) := by
          rw [Text.toAsciiUppercase, hupper, List.map_map, Text.toAsciiUppercase]
          exact congrArg String.ofList (List.map_congr_left fun letter hletter =>
            (toUpper_of_isAlpha (halpha letter hletter)).2.1)
        simp only [Option.bind_some, htrim, hupper, hsize, hall, hlen, and_self, if_true, hagain]
      case isFalse => rfl

/-- A clean name stays as it is. -/
theorem sanitizeRegistrantOrg_idem (value : Option String) :
    sanitizeRegistrantOrg (sanitizeRegistrantOrg value) = sanitizeRegistrantOrg value := by
  cases value with
  | none => rfl
  | some value =>
      simp only [sanitizeRegistrantOrg, Option.bind_some]
      split
      case isTrue => rfl
      case isFalse hkept => simp only [Option.bind_some, Text.trim_trim, if_neg hkept]

/-- A value that is filled in from a second one and cleaned. Cleaning it again, with the second one
at hand, changes nothing. -/
theorem clean_or_self {clean : Option String → Option String}
    (hclean : ∀ value, clean (clean value) = clean value) (extracted : Option String) :
    clean ((clean extracted).or extracted) = clean extracted := by
  cases h : clean extracted with
  | none => rw [Option.none_or, h]
  | some value =>
      rw [Option.some_or, ← h]
      exact hclean extracted

/-- A result that was enriched from its raw text alone stays as it is. A given organization that is
dropped as redacted would be taken from the raw text the next time, so the fields must be empty. -/
theorem enrichResultFromRawText_enriched {result : WhoisResult}
    (horg : result.registrantOrg = none) (hcountry : result.registrantCountry = none) :
    enrichResultFromRawText (enrichResultFromRawText result) = enrichResultFromRawText result := by
  cases hraw : result.rawText with
  | none =>
      simp only [enrichResultFromRawText, hraw, isoAlpha2Country_idem, sanitizeRegistrantOrg_idem]
  | some rawText =>
      simp only [enrichResultFromRawText, hraw, horg, hcountry, Option.none_or,
        clean_or_self isoAlpha2Country_idem, clean_or_self sanitizeRegistrantOrg_idem]

/-- The result of a lookup is enriched for good. -/
theorem enrich_convertParsedData (parsers : DateParsers) (response : WhoisResponse) :
    enrichResultFromRawText (convertParsedData parsers response) =
      convertParsedData parsers response := by
  unfold convertParsedData convertPayload
  split <;> exact enrichResultFromRawText_enriched rfl rfl

/-- Enriching leaves the dates alone. -/
theorem enrich_floorMillis (result : WhoisResult) :
    enrichResultFromRawText result.floorMillis = (enrichResultFromRawText result).floorMillis := by
  cases hraw : result.rawText <;>
    simp only [enrichResultFromRawText, WhoisResult.floorMillis, hraw]

end DomainStatus.Whois
