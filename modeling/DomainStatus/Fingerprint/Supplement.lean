import DomainStatus.Fingerprint.Body
import DomainStatus.Fingerprint.Incremental

/-!
# Later signals

The signals that come after the page's own: name servers, aliases and the certificate, after
`src/fingerprint/detection/dns_cert.rs`, and fetched script texts, after `body.rs`. Both are merged
into a finished detection. Read `supplementTechnologiesWithDnsCert_eq` first: the early returns of
the two supplements are no special cases.
-/

namespace DomainStatus.Fingerprint

variable {R : RegexCrate}

/-- Takes the result of a pattern in, and stops once there is a version. -/
def Verdict.take (verdict : Verdict) (source : DetectionSource) (result : PatternMatchResult) :
    Verdict × Bool :=
  if result.matched then
    let version := verdict.version.or result.version
    ({ matched := true, version := version, source := verdict.source.or (some source) },
      version.isSome)
  else (verdict, false)

/-- Only name servers and aliases tell what serves a page. -/
def isServingStackDnsType (recordType : String) : Bool :=
  Text.eqIgnoreAsciiCase recordType "NS" || Text.eqIgnoreAsciiCase recordType "CNAME"

/-- Tries the patterns until there is a version. -/
def matchPatterns (source : DetectionSource) (patterns : List (CompiledPattern R)) (text : String)
    (verdict : Verdict) : Verdict :=
  (Rounds.forUntil (fun verdict pattern => verdict.take source (pattern.evaluate text)) patterns
    verdict).1

/-- Matches the patterns for one record type. -/
def matchDnsRecord (dnsRecords : HashMap String String) (verdict : Verdict)
    (record : String × List (CompiledPattern R)) : Verdict × Bool :=
  if !isServingStackDnsType record.1 then (verdict, false)
  else
    match dnsRecords.lookup (Text.toAsciiUppercase record.1) with
    | none => (verdict, false)
    | some haystack =>
        let source :=
          if Text.eqIgnoreAsciiCase record.1 "CNAME" then DetectionSource.cname else .ns
        let verdict := matchPatterns source record.2 haystack verdict
        (verdict, verdict.version.isSome)

/-- What the records and the certificate show of one technology. -/
def matchDnsAndCert (R : RegexCrate) (dnsRecords : HashMap String String)
    (certIssuerLower : Option String) (tech : Technology) : Verdict :=
  let records := tech.dns.entries.map fun entry => (entry.1, entry.2.filterMap (compilePattern R))
  let verdict := (Rounds.forUntil (matchDnsRecord dnsRecords) records Verdict.start).1
  match certIssuerLower with
  | some issuer => matchPatterns .cert (tech.certIssuer.filterMap (compilePattern R)) issuer verdict
  | none => verdict

/-- The technologies that the records and the certificate show. -/
def checkDnsAndCertWithRuleset (R : RegexCrate) (toLowercase : String → String)
    (ruleset : FingerprintRuleset) (dnsRecords : HashMap String String)
    (certIssuer : Option String) : List MatchResult :=
  let certIssuerLower := certIssuer.map toLowercase
  ruleset.technologies.entries.filterMap fun entry =>
    if entry.2.dns.entries.isEmpty && entry.2.certIssuer.isEmpty then none
    else
      let verdict := matchDnsAndCert R dnsRecords certIssuerLower entry.2
      if verdict.matched then
        some { techName := entry.1, version := verdict.version, source := verdict.source.getD .ns }
      else none

/-- The technologies that a script text shows. -/
def checkScriptsWithRuleset (R : RegexCrate) (aho : AhoCorasick) (ruleset : FingerprintRuleset)
    (scriptText : String) : List MatchResult :=
  if scriptText = "" then []
  else
    let index := LiteralIndex.build R aho ruleset.technologies
    ruleset.technologies.entries.filterMap fun entry =>
      if entry.2.scripts.isEmpty then none
      else
        let progress := (index.matchChannel entry.1 .scripts (index.scan .scripts scriptText)
          scriptText { matched := false, version := none }).1
        if progress.matched then
          some { techName := entry.1, version := progress.version, source := .scripts }
        else none

variable (ruleset : FingerprintRuleset) (order : HashOrder)
  (alreadyDetected : List DetectedTechnology)

/-- Merges what the records and the certificate show into a finished detection. -/
def supplementTechnologiesWithDnsCert (R : RegexCrate) (toLowercase : String → String)
    (dnsRecords : HashMap String String) (certIssuer : Option String) : List DetectedTechnology :=
  if dnsRecords.entries.isEmpty && certIssuer.isNone then alreadyDetected
  else
    supplementTechnologies ruleset order alreadyDetected
      (checkDnsAndCertWithRuleset R toLowercase ruleset dnsRecords certIssuer)

/-- Merges what a script text shows into a finished detection. -/
def supplementTechnologiesWithScriptText (R : RegexCrate) (aho : AhoCorasick)
    (scriptText : String) : List DetectedTechnology :=
  if scriptText = "" then alreadyDetected
  else
    supplementTechnologies ruleset order alreadyDetected
      (checkScriptsWithRuleset R aho ruleset scriptText)

/-- Without records no technology is matched by its records. -/
theorem forUntil_matchDnsRecord_empty (records : List (String × List (CompiledPattern R)))
    (verdict : Verdict) :
    (Rounds.forUntil (matchDnsRecord ∅) records verdict).1 = verdict := by
  induction records generalizing verdict with
  | nil => rfl
  | cons record rest ih =>
      have hrecord : matchDnsRecord ∅ verdict record = (verdict, false) := by
        simp [matchDnsRecord]
      rw [Rounds.forUntil, hrecord]
      exact ih verdict

/-- The supplement is the merge of its signals, also when there are no records at all. -/
theorem supplementTechnologiesWithDnsCert_eq (R : RegexCrate) (toLowercase : String → String)
    (dnsRecords : HashMap String String) (certIssuer : Option String) :
    supplementTechnologiesWithDnsCert ruleset order alreadyDetected R toLowercase dnsRecords
        certIssuer =
      supplementTechnologies ruleset order alreadyDetected
        (checkDnsAndCertWithRuleset R toLowercase ruleset dnsRecords certIssuer) := by
  unfold supplementTechnologiesWithDnsCert
  split
  case isTrue hempty =>
    rw [Bool.and_eq_true, List.isEmpty_iff, Option.isNone_iff_eq_none] at hempty
    obtain ⟨hrecords, rfl⟩ := hempty
    obtain rfl : dnsRecords = ∅ := AList.ext hrecords
    have hnone : checkDnsAndCertWithRuleset R toLowercase ruleset ∅ none = [] := by
      rw [checkDnsAndCertWithRuleset, List.filterMap_eq_nil_iff]
      intro entry _
      simp [matchDnsAndCert, forUntil_matchDnsRecord_empty, Verdict.start]
    rw [hnone, supplementTechnologies, if_pos rfl]
  case isFalse => rfl

/-- The supplement is the merge of its signals, also for an empty text. -/
theorem supplementTechnologiesWithScriptText_eq (R : RegexCrate) (aho : AhoCorasick)
    (scriptText : String) :
    supplementTechnologiesWithScriptText ruleset order alreadyDetected R aho scriptText =
      supplementTechnologies ruleset order alreadyDetected
        (checkScriptsWithRuleset R aho ruleset scriptText) := by
  unfold supplementTechnologiesWithScriptText
  split
  case isTrue hempty =>
    rw [checkScriptsWithRuleset, if_pos hempty, supplementTechnologies, if_pos rfl]
  case isFalse => rfl

end DomainStatus.Fingerprint
