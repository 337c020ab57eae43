import DomainStatus.Lib.Base64
import DomainStatus.Lib.Occurrences
import DomainStatus.Parse.HeaderSecrets
import DomainStatus.Parse.JsonLd
import DomainStatus.Parse.Jwt
import DomainStatus.Parse.LineWindow
import DomainStatus.Parse.Overrides

/-!
# Which matches are plausible

The filters of `src/parse/secrets.rs` that judge a single match by its rule, its value and the text
around it, and its severity. The entropy of a value is a parameter, since it is computed with
floating point numbers. Read `credentials_reported_iff` first: which keys and headers of a page are
reported.
-/

namespace DomainStatus.Secrets

open Base64 Text

/-! ## Values -/

/-- A hexadecimal digit in either case. -/
def isHexDigit (c : Char) : Bool :=
  c.isDigit || ('a' ≤ c && c ≤ 'f') || ('A' ≤ c && c ≤ 'F')

/-- A lower case letter stands right before an upper case one. -/
def looksLikeCamelCaseIdentifier : List Char → Bool
  | first :: second :: rest =>
      (first.isLower && second.isUpper) || looksLikeCamelCaseIdentifier (second :: rest)
  | _ => false

/-- A UUID with its hyphens. -/
def looksLikeHyphenatedUuid (value : List Char) : Bool :=
  len value == 36 && value.length == 36 && value.zipIdx.all fun (c, index) =>
    if index == 8 || index == 13 || index == 18 || index == 23 then c == '-' else isHexDigit c

/-- The fewest bytes of a generic key. -/
def genericApiKeyMinLen : ℕ := 16

/-- The fewest bytes of a generic key in hexadecimal. -/
def genericApiKeyHexMinLen : ℕ := 32

/-- The least entropy of a generic key. -/
def genericApiKeyMinEntropy : ℚ := 4

/-- The least entropy of a generic key in hexadecimal. -/
def genericApiKeyHexMinEntropy : ℚ := 7 / 2

/-- The value is long and mixed enough for a key, and no identifier, address or UUID. -/
def genericApiKeyIsPlausible (shannonEntropy : String → ℚ) (value : String) : Bool :=
  let chars := value.toList
  if len chars < genericApiKeyMinLen then false
  else if looksLikeHyphenatedUuid chars then false
  else if chars.contains '.' || chars.contains '=' then false
  else if looksLikeCamelCaseIdentifier chars then false
  else if !chars.all fun c => c.isAlphanum || c == '-' || c == '_' || c == '+' || c == '/' then
    false
  else if chars.all Char.isAlpha then false
  else
    let predominantlyHex := len chars * 4 ≤ chars.countP isHexDigit * 5
    if predominantlyHex then
      if len chars < genericApiKeyHexMinLen then false
      else genericApiKeyHexMinEntropy ≤ shannonEntropy value
    else genericApiKeyMinEntropy ≤ shannonEntropy value

/-! ## Private keys -/

/-- The fewest bytes of a private key. -/
def privateKeyMinDecodedBody : ℕ := 64

/-- The characters that are kept of the body of a key. -/
def isPemBodyChar (c : Char) : Bool :=
  c.isAlphanum || c == '+' || c == '/' || c == '='

/-- The characters of Base64 between the marks of a private key. -/
def pemBase64Body (pem : List Char) : Option (List Char) := do
  let start ← find "-----BEGIN".toList pem
  let afterFirstDashes ← slice pem (start + 5) (len pem)
  let headerEndRel ← find "-----".toList afterFirstDashes
  let rest ← slice pem (start + 5 + headerEndRel + 5) (len pem)
  let bodyEnd :=
    ((find "-----END".toList rest).or (rfind "KEY-----".toList rest)).getD (len rest)
  let raw ← slice rest 0 bodyEnd
  let b64 := raw.filter isPemBodyChar
  if b64.isEmpty then none else some b64

/-- The length of the decoded body. Where it is not canonical, four characters stand for three
bytes. -/
def pemDecodedBodyLen (pem : List Char) : ℕ :=
  match pemBase64Body pem with
  | none => 0
  | some b64 =>
      match decodeStandard b64 with
      | some bytes => bytes.length
      | none => if 86 ≤ b64.length then b64.length * 3 / 4 else 0

/-- The body of the key is no stub. -/
def privateKeyBodyIsPlausible (pem : List Char) : Bool :=
  privateKeyMinDecodedBody ≤ pemDecodedBodyLen pem

/-! ## Basic authentication -/

/-- The fewest bytes of a pair of name and password. -/
def httpBasicMinDecodedLen : ℕ := 10

/-- The pair is one that documentation uses. -/
def httpBasicPairIsPlaceholder (user pass : List Char) : Bool :=
  ["user", "foo", "bar", "beep", "admin"].contains (String.ofList (user.map Char.toLower)) &&
    ["pass", "password", "foo", "bar", "beep", "boop"].contains
      (String.ofList (pass.map Char.toLower))

/-- The bytes of a pair in Base64, padded or not. -/
def decodeHttpBasic (value : List Char) : Option (List UInt8) :=
  (decodeStandard (trimChars value)).or (decodeStandardNoPad (trimChars value))

/-- The value is a pair of name and password, and no short one and no placeholder. -/
def httpBasicAuthIsPlausible (matchedValue : List Char) : Bool :=
  match decodeHttpBasic matchedValue with
  | none => false
  | some bytes =>
      if bytes.length < httpBasicMinDecodedLen then false
      else
        match fromUtf8 bytes with
        | none => true
        | some decoded =>
            match splitOnce ':' decoded.toList with
            | none => false
            | some (user, pass) => !httpBasicPairIsPlaceholder user pass

/-! ## Credentials in URLs -/

/-- How tokens start that are used in URLs. -/
def distinctiveUserinfoPrefixes : List String :=
  ["ghp_", "glpat-", "sk_", "xox", "AKIA"]

/-- The value starts like a known token. -/
def capturedHasDistinctiveUserinfoPrefix (value : String) : Bool :=
  distinctiveUserinfoPrefixes.any (startsWith value)

/-- What stands behind `://` up to the next `@`, or all of it. -/
def userinfoOf (fullMatch : List Char) : Option (List Char) :=
  (find "://".toList fullMatch).bind fun offset =>
    (slice fullMatch (offset + 3) (len fullMatch)).map (·.takeWhile (· ≠ '@'))

/-- The URL names a user and a password. -/
def fullMatchUserinfoHasColon (fullMatch : List Char) : Bool :=
  (userinfoOf fullMatch).any (·.contains ':')

/-- The user is an address with an encoded `@`. -/
def userinfoUserIsMailboxShaped (fullMatch : List Char) : Bool :=
  match userinfoOf fullMatch with
  | none => false
  | some userinfo =>
      let lower := (userinfo.takeWhile (· ≠ ':')).map Char.toLower
      match find "%40".toList lower with
      | none => false
      | some offset =>
          match slice lower 0 offset, slice lower (offset + 3) (len lower) with
          | some localPart, some domain =>
              !localPart.isEmpty && domain.contains '.' &&
                domain.all fun c => c.isAlphanum || c == '.' || c == '-'
          | _, _ => false

/-- The URL has credentials, and no mail address in their place. -/
def credentialBearingUrlIsPlausible (matchedValue fullMatch lineContent : String) : Bool :=
  if capturedHasDistinctiveUserinfoPrefix matchedValue then true
  else if contains (lineContent.toList.map Char.toLower) "mailto:".toList then false
  else if userinfoUserIsMailboxShaped fullMatch.toList then false
  else fullMatchUserinfoHasColon fullMatch.toList

/-- The text around the match names the service. -/
def nearbyTextLooksLikeDatadog (nearbyText : String) : Bool :=
  ["datadog", "dd_api", "dd_app", "ddapikey", "ddappkey", "dd_rum", "dd_logs", "dd_client",
    "dd_site"].any fun marker => contains (nearbyText.toList.map Char.toLower) marker.toList

/-! ## The filters by rule -/

/-- The filter by value of a rule. A rule without one keeps everything. -/
def webRuleMatchIsPlausible (shannonEntropy : String → ℚ) (ruleId matchedValue : String) : Bool :=
  match ruleId with
  | "generic-api-key" => genericApiKeyIsPlausible shannonEntropy matchedValue
  | "sourcegraph-access-token" => startsWith matchedValue "sgp_"
  | "vault-service-token" =>
      match stripPrefix matchedValue "s." with
      | some rest => !looksLikeCamelCaseIdentifier rest.toList
      | none => true
  | "linkedin-client-id" | "linkedin-client-secret" =>
      let startsLower := matchedValue.toList.head?.any Char.isLower
      !(startsLower && looksLikeCamelCaseIdentifier matchedValue.toList)
  | "private-key" => privateKeyBodyIsPlausible matchedValue.toList
  | "http-basic-auth" => httpBasicAuthIsPlausible matchedValue.toList
  | _ => true

/-- The filter of a rule by what stands around a match. -/
def webRuleMatchIsPlausibleInContext
    (ruleId matchedValue nearbyText fullMatch lineContent : String) : Bool :=
  match ruleId with
  | "datadog-access-token" => nearbyTextLooksLikeDatadog nearbyText
  | "credential-bearing-url" => credentialBearingUrlIsPlausible matchedValue fullMatch lineContent
  | _ => true

/-! ## Severity -/

/-- The severity of a rule that the table does not have, by words in its name. -/
def severityForUnknownRuleId (ruleId : String) : SecretSeverity :=
  let names := fun words : List String => words.any fun word => contains ruleId.toList word.toList
  if names ["private-key", "password", "client-secret", "client_secret"] then .high
  else if names ["token", "api-key", "api_key", "access-key", "access_key", "secret", "pat",
      "cred"] then .medium
  else .low

/-- The rules of the table by severity. -/
def severityTable : List (SecretSeverity × List String) :=
  [(.critical, ["private-key", "database-connection-uri", "jdbc-connection-string",
      "credential-bearing-url", "slack-bot-token", "slack-user-token", "slack-legacy-token",
      "slack-legacy-bot-token", "github-pat", "github-fine-grained-pat", "gitlab-pat",
      "vault-batch-token", "vault-service-token"]),
    (.high, ["aws-access-token", "http-basic-auth", "mailchimp-api-key", "openai-api-key",
      "anthropic-api-key", "anthropic-admin-api-key", "sendgrid-api-token", "twilio-api-key",
      "npm-access-token", "pypi-upload-token", "digitalocean-access-token", "digitalocean-pat",
      "heroku-api-key", "heroku-api-key-v2", "flyio-access-token", "shopify-access-token",
      "shopify-private-app-access-token", "shopify-shared-secret", "bitbucket-client-secret",
      "mailgun-private-api-token", "cloudflare-api-key", "doppler-api-token", "plaid-secret-key",
      "plaid-api-token", "fastly-api-token"]),
    (.medium, ["azure-ad-client-secret", "slack-webhook-url", "slack-app-token",
      "algolia-api-key", "datadog-access-token", "grafana-api-key", "grafana-cloud-api-token",
      "sentry-access-token", "linear-api-key", "generic-api-key"]),
    (.low, ["gcp-api-key", "mapbox-api-token", "contentful-delivery-api-token", "jwt",
      "jwt-base64"])]

/-- The severity of a rule, from the table or from its name. -/
def severityForRuleId (ruleId : String) : SecretSeverity :=
  match severityTable.find? (·.2.contains ruleId) with
  | some (severity, _) => severity
  | none => severityForUnknownRuleId ruleId

/-- The text around the match speaks of an admin key. -/
def algoliaAssignmentIsAdmin (nearbyText : String) : Bool :=
  ["admin_key", "adminkey", "adminapikey", "admin_api_key", "algolia_admin",
    "algoliaadmin"].any fun marker => contains (nearbyText.toList.map Char.toLower) marker.toList

/-- The severity of a finding. For two rules what stands around it lowers the severity. -/
def severityForFinding (ruleId lineContent nearbyText : String) : SecretSeverity :=
  let severity := severityForRuleId ruleId
  if ruleId = "aws-access-token" ∧
      contains (lineContent.toList.map Char.toLower) "x-amz-credential=".toList then .low
  else if ruleId = "algolia-api-key" ∧ ¬algoliaAssignmentIsAdmin nearbyText then .low
  else severity

/-- The checks of the program. The search for an expression and the entropy are parameters. -/
def webChecks {R : RegexCrate} (capturesIter : R.Regex → String → List Found)
    (shannonEntropy : String → ℚ) (toLowercase : List Char → List Char) (serde : SerdeJson) :
    MatchChecks R where
  capturesIter := capturesIter
  shannonEntropy := shannonEntropy
  webRuleMatchIsPlausible := webRuleMatchIsPlausible shannonEntropy
  webRuleMatchIsPlausibleInContext := webRuleMatchIsPlausibleInContext
  extractContext := contextOf
  -- Four steps reach the end of any character.
  lineContaining body start stop :=
    String.ofList ((lineContaining 4 body.toList start stop).getD [])
  inferLocationForBodyMatch body start context :=
    inferLocationForBodyMatch toLowercase body.toList start context.toList
  severityForFinding := severityForFinding
  decodeJwt value := decodeJwt serde value.toList
  decodeJwtBase64 value := decodeJwtBase64 serde value.toList

/-- The checks without the filters by rule. -/
def MatchChecks.unfiltered {R : RegexCrate} (checks : MatchChecks R) : MatchChecks R :=
  { checks with
    webRuleMatchIsPlausible := fun _ _ => true
    webRuleMatchIsPlausibleInContext := fun _ _ _ _ _ => true }

/-! ## Private keys as they are written -/

/-- The text of a private key, with its body between the marks. -/
def pemText (before label body after : List Char) : List Char :=
  before ++ ("-----BEGIN".toList ++ (label ++ ("-----".toList ++ (body ++
    ("-----END".toList ++ after)))))

section PrivateKey

variable {before label body after : List Char} {der : List UInt8}

/-- The body of a block between dashes. -/
theorem pemBase64Body_pemText (hbefore : '-' ∉ before) (hlabel : '-' ∉ label) (hbody : '-' ∉ body) :
    pemBase64Body (pemText before label body after) =
      if (body.filter isPemBodyChar).isEmpty then none else some (body.filter isPemBodyChar) := by
  have hdashes : len "-----".toList = 5 := rfl
  -- The search starts behind the first five dashes, so it finds the end of the first mark.
  have hstart : find "-----BEGIN".toList (pemText before label body after) = some (len before) :=
    find_append_self hbefore
  have hheader : slice (pemText before label body after) (len before + 5)
      (len (pemText before label body after)) =
        some (("BEGIN".toList ++ label) ++
          ("-----".toList ++ (body ++ ("-----END".toList ++ after)))) := by
    have htext : pemText before label body after = (before ++ "-----".toList) ++
        (("BEGIN".toList ++ label) ++
          ("-----".toList ++ (body ++ ("-----END".toList ++ after)))) := by
      rw [List.append_assoc, List.append_assoc]
      rfl
    have hlen : len before + 5 = len (before ++ "-----".toList) := by
      rw [len_append, hdashes]
    rw [htext, hlen]
    exact slice_rest
  have hmark : find "-----".toList (("BEGIN".toList ++ label) ++
      ("-----".toList ++ (body ++ ("-----END".toList ++ after)))) =
        some (len ("BEGIN".toList ++ label)) := by
    refine find_append_self fun h => ?_
    rcases List.mem_append.mp h with h | h
    · exact absurd h (by decide)
    · exact hlabel h
  have hrest : slice (pemText before label body after)
      (len before + 5 + len ("BEGIN".toList ++ label) + 5)
      (len (pemText before label body after)) = some (body ++ ("-----END".toList ++ after)) := by
    have htext : pemText before label body after =
        (before ++ "-----".toList ++ ("BEGIN".toList ++ label) ++ "-----".toList) ++
          (body ++ ("-----END".toList ++ after)) := by
      simp only [List.append_assoc]
      rfl
    have hlen : len before + 5 + len ("BEGIN".toList ++ label) + 5 =
        len (before ++ "-----".toList ++ ("BEGIN".toList ++ label) ++ "-----".toList) := by
      simp only [len_append, hdashes]
    rw [htext, hlen]
    exact slice_rest
  have hend : find "-----END".toList (body ++ ("-----END".toList ++ after)) = some (len body) :=
    find_append_self hbody
  have hraw : slice (body ++ ("-----END".toList ++ after)) 0 (len body) = some body := by
    have hslice := @slice_append [] body ("-----END".toList ++ after)
    rwa [List.nil_append, len_nil, Nat.zero_add] at hslice
  simp only [pemBase64Body, hstart, hheader, hmark, hrest, hend, hraw, Option.bind_eq_bind,
    Option.bind_some, Option.some_or, Option.getD_some]

/-- The length of the bytes that a block encodes. -/
theorem pemDecodedBodyLen_pemText (hbefore : '-' ∉ before) (hlabel : '-' ∉ label)
    (hbody : '-' ∉ body) (hder : body.filter isPemBodyChar = encodeStandard der) :
    pemDecodedBodyLen (pemText before label body after) = der.length := by
  rw [pemDecodedBodyLen, pemBase64Body_pemText hbefore hlabel hbody, hder]
  cases der with
  | nil => rfl
  | cons byte bytes =>
      have hne : (encodeStandard (byte :: bytes)).isEmpty = false := by
        have hlength := length_encodeStandard (byte :: bytes)
        rw [List.length_cons] at hlength
        rw [List.isEmpty_eq_false_iff, ← List.length_pos_iff]
        omega
      rw [hne]
      show (match decodeStandard (encodeStandard (byte :: bytes)) with
        | some decoded => decoded.length
        | none => _) = _
      rw [decodeStandard_encodeStandard]

end PrivateKey

/-! ## Pairs as they are written in a header -/

/-- A user and a password, encoded with or without padding. -/
def encodedPair (padded : Bool) (user pass : List Char) : List Char :=
  let bytes := utf8Bytes (user ++ ':' :: pass)
  if padded then encodeStandard bytes else (sextets bytes).map standardSymbol

section Pair

variable {lead trail user pass text : List Char} {padded : Bool} {bytes : List UInt8}

/-- The bytes of a text are as many as its length says. -/
theorem length_utf8Bytes (text : List Char) : (utf8Bytes text).length = len text := by
  rw [utf8Bytes, List.length_flatMap]
  simp only [String.length_utf8EncodeChar]
  rfl

/-- No character of base64 is a blank. -/
theorem isWhitespace_of_mem_standard {c : Char} (h : c ∈ standardAlphabet ∨ c = '=') :
    isWhitespace c = false := by
  have halphabet : ∀ c ∈ standardAlphabet, isWhitespace c = false := by decide
  rcases h with h | rfl
  · exact halphabet c h
  · rfl

/-- An encoded pair is decoded, blanks around it or not. -/
theorem decodeHttpBasic_encodedPair (hlead : Blank lead) (htrail : Blank trail) :
    decodeHttpBasic (lead ++ (encodedPair padded user pass ++ trail)) =
      some (utf8Bytes (user ++ ':' :: pass)) := by
  have htrim : trimChars (lead ++ (encodedPair padded user pass ++ trail)) =
      encodedPair padded user pass := by
    rw [blank_append_trimChars hlead, trimChars_append_blank htrail]
    refine trimChars_eq_self fun c hc => isWhitespace_of_mem_standard ?_
    cases padded with
    | false => exact Or.inl (mem_standardSymbols hc)
    | true => exact mem_encodeStandard hc
  rw [decodeHttpBasic, htrim]
  cases padded with
  | true =>
      show (decodeStandard (encodeStandard _)).or _ = _
      rw [decodeStandard_encodeStandard, Option.some_or]
  | false =>
      show (decodeStandard ((sextets _).map standardSymbol)).or
        (decodeStandardNoPad ((sextets _).map standardSymbol)) = _
      rw [decodeStandardNoPad_symbols]
      rcases decodeStandard_symbols (utf8Bytes (user ++ ':' :: pass)) with h | h
      · rw [h, Option.some_or]
      · rw [h, Option.none_or]

/-- When a pair is taken for credentials. -/
theorem httpBasicAuthIsPlausible_encodedPair (hlead : Blank lead) (htrail : Blank trail)
    (huser : ':' ∉ user) :
    httpBasicAuthIsPlausible (lead ++ (encodedPair padded user pass ++ trail)) = true ↔
      10 ≤ len user + 1 + len pass ∧ httpBasicPairIsPlaceholder user pass = false := by
  have hlength : (utf8Bytes (user ++ ':' :: pass)).length = len user + 1 + len pass := by
    rw [length_utf8Bytes, len_append, len_cons, Nat.add_assoc]
    rfl
  rw [httpBasicAuthIsPlausible, decodeHttpBasic_encodedPair hlead htrail]
  show (if (utf8Bytes _).length < httpBasicMinDecodedLen then false else
    match fromUtf8 (utf8Bytes _) with
    | none => true
    | some decoded => _) = true ↔ _
  rw [hlength, fromUtf8_utf8Bytes]
  show (if _ then false else
    match splitOnce ':' (String.ofList (user ++ ':' :: pass)).toList with
    | none => false
    | some (user, pass) => !httpBasicPairIsPlaceholder user pass) = true ↔ _
  rw [String.toList_ofList, splitOnce_append huser]
  by_cases hshort : len user + 1 + len pass < httpBasicMinDecodedLen
  · rw [if_pos hshort]
    exact iff_of_false Bool.false_ne_true fun h => absurd h.1 (Nat.not_le.mpr hshort)
  · rw [if_neg hshort, Bool.not_eq_true']
    exact (and_iff_right (Nat.not_lt.mp hshort)).symm

end Pair

/-! ## Where a scan ends -/

/-- No match of a rule stands behind an opening tag that is cut inside of a character. -/
def NoMatchInCutTag {R : RegexCrate} (checks : MatchChecks R) (config : GitleaksCompiled R)
    (body : String) : Prop :=
  ∀ rule ∈ config.rules, ∀ found ∈ checks.capturesIter rule.regex body, ∀ before,
    slice body.toList 0 found.start = some before → ¬CutsTag (before.map Char.toLower)

/-- On such a page every location is inferred, so the scan has an answer. -/
theorem exists_detect {R : RegexCrate} {checks : MatchChecks R}
    {toLowercase : List Char → List Char}
    (hlocation : ∀ body start context, checks.inferLocationForBodyMatch body start context =
      inferLocationForBodyMatch toLowercase body.toList start context.toList)
    (hmatches : MatchesAtBoundaries checks) {config : GitleaksCompiled R} {body : String}
    (hcut : NoMatchInCutTag checks config body) :
    ∃ secrets, detectExposedSecretsInner checks config body true = some secrets := by
  rw [← Option.ne_none_iff_exists', detectExposedSecretsInner_eq]
  intro hnone
  obtain ⟨shown, hshown, hsecret⟩ := List.mapM_eq_none_iff.mp hnone
  obtain ⟨rule, hrule, -, hfound, -⟩ := spec_of_mem_firstMatches hshown
  obtain ⟨-, hstart, -⟩ := hmatches rule.regex body shown.found hfound
  obtain ⟨before, -, hbefore, -⟩ := slice_append_slice (Nat.zero_le _)
    (le_len_of_isCharBoundary hstart) isCharBoundary_zero hstart isCharBoundary_len
  have hpanics := Option.map_eq_none_iff.mp hsecret
  rw [hlocation, inferLocationForBodyMatch_eq_none_iff,
    (isInsideJsonLdScript_spec hbefore).1] at hpanics
  exact hcut rule (List.mem_of_mem_filter hrule) shown.found hfound before hbefore hpanics

/-! ## What the filters take away -/

/-- Some findings have a value for a rule. -/
def Reports (secrets : List ExposedSecret) (id : String) (value : List Char) : Prop :=
  (id, String.ofList value) ∈ secrets.map findingKey

section Filters

variable {R : RegexCrate} {properties : CaseProperties} {build : String → Option R.Regex}
  {builds : List String → Bool} {allowlist : Option AllowlistRaw} {raw : List RuleRaw}
  {overrides : Option OverridesFile} {config : GitleaksCompiled R} {checks : MatchChecks R}
  {global : CompiledGlobalAllowlist R} {id value : String}

/-- The filter by value takes away what is not plausible, and nothing else. -/
theorem matchedValue_plausibleMatch_iff {body : String} {rule : CompiledRule R} {found : Found}
    (hcontext : ∀ nearbyText fullMatch lineContent,
      checks.webRuleMatchIsPlausibleInContext rule.id value nearbyText fullMatch lineContent =
        true) :
    (plausibleMatch checks global rule body found).map (·.matchedValue) = some value ↔
      (plausibleMatch checks.unfiltered global rule body found).map (·.matchedValue) =
          some value ∧
        checks.webRuleMatchIsPlausible rule.id value = true := by
  unfold plausibleMatch
  cases (found.groups[0]?).join with
  | none => simp
  | some fullMatch =>
      simp only [Option.bind_some, MatchChecks.unfiltered, Bool.not_true, Bool.or_false]
      by_cases hvalue : extractSecret found.groups fullMatch rule.secretGroup = value
      · rw [hvalue]
        simp only [hcontext, Bool.not_true, Bool.or_false]
        cases checks.webRuleMatchIsPlausible rule.id value with
        | false => simp
        | true =>
            simp only [Bool.not_true, Bool.or_false, and_true]
            exact Iff.rfl
      · split_ifs <;> simp [hvalue]

/-- A rule without a filter by context reports what is plausible of what it would report without
the filters. -/
theorem reports_iff_unfiltered
    (hconfig : loadCompiled R properties build builds allowlist raw overrides = some config)
    (hcontext : ∀ value nearbyText fullMatch lineContent,
      checks.webRuleMatchIsPlausibleInContext id value nearbyText fullMatch lineContent = true)
    {body : String} {secrets others : List ExposedSecret}
    (hsecrets : detectExposedSecretsInner checks config body true = some secrets)
    (hothers : detectExposedSecretsInner checks.unfiltered config body true = some others)
    (text : List Char) :
    Reports secrets id text ↔
      Reports others id text ∧
        checks.webRuleMatchIsPlausible id (String.ofList text) = true := by
  rw [Reports, Reports, mem_keys_detect hconfig hsecrets, mem_keys_detect hconfig hothers]
  constructor
  · rintro ⟨rule, hrule, happlies, found, hfound, hvalue⟩
    have hid : rule.id = id := id_of_mem_effectiveRules hrule
    subst hid
    obtain ⟨hunfiltered, hpasses⟩ := (matchedValue_plausibleMatch_iff (hcontext _)).mp hvalue
    exact ⟨⟨rule, hrule, happlies, found, hfound, hunfiltered⟩, hpasses⟩
  · rintro ⟨⟨rule, hrule, happlies, found, hfound, hunfiltered⟩, hpasses⟩
    have hid : rule.id = id := id_of_mem_effectiveRules hrule
    subst hid
    exact ⟨rule, hrule, happlies, found, hfound,
      (matchedValue_plausibleMatch_iff (hcontext _)).mpr ⟨hunfiltered, hpasses⟩⟩

end Filters

/-- Apart from two rules that look at the text around a match, the filters by rule take away the
values that are not plausible and nothing else. A private key in its canonical form is kept if it
has 64 bytes or more, and a pair in a header if it has 10 bytes or more and is no placeholder. This
is about pages of which a scan has an answer, as it has if no match is behind a cut tag. -/
theorem credentials_reported_iff {R : RegexCrate}
    (capturesIter : R.Regex → String → List Found) (shannonEntropy : String → ℚ)
    (toLowercase : List Char → List Char) (serde : SerdeJson) (properties : CaseProperties)
    (build : String → Option R.Regex) (builds : List String → Bool)
    (allowlist : Option AllowlistRaw) (raw : List RuleRaw) (overrides : Option OverridesFile)
    (config : GitleaksCompiled R)
    (hconfig : loadCompiled R properties build builds allowlist raw overrides = some config)
    (page : String) :
    let checks := webChecks capturesIter shannonEntropy toLowercase serde
    (MatchesAtBoundaries checks → NoMatchInCutTag checks config page → ∃ secrets others,
      detectExposedSecretsInner checks config page true = some secrets ∧
        detectExposedSecretsInner checks.unfiltered config page true = some others) ∧
    ∀ secrets others, detectExposedSecretsInner checks config page true = some secrets →
      detectExposedSecretsInner checks.unfiltered config page true = some others →
      (∀ id value, id ∉ ["datadog-access-token", "credential-bearing-url"] →
        (Reports secrets id value ↔
          Reports others id value ∧
            webRuleMatchIsPlausible shannonEntropy id (String.ofList value) = true)) ∧
      (∀ before label body after der, '-' ∉ before → '-' ∉ label → '-' ∉ body →
        body.filter isPemBodyChar = encodeStandard der →
          (Reports secrets "private-key" (pemText before label body after) ↔
            Reports others "private-key" (pemText before label body after) ∧ 64 ≤ der.length)) ∧
      ∀ lead padded user pass trail, Blank lead → Blank trail → ':' ∉ user →
        (Reports secrets "http-basic-auth" (lead ++ (encodedPair padded user pass ++ trail)) ↔
          Reports others "http-basic-auth" (lead ++ (encodedPair padded user pass ++ trail)) ∧
            10 ≤ len user + 1 + len pass ∧ httpBasicPairIsPlaceholder user pass = false) := by
  intro checks
  refine ⟨fun hmatches hcut => ?_, fun secrets others hsecrets hothers => ?_⟩
  · obtain ⟨secrets, hsecrets⟩ := exists_detect (fun _ _ _ => rfl) hmatches hcut
    have hunfiltered : MatchesAtBoundaries checks.unfiltered := hmatches
    obtain ⟨others, hothers⟩ := exists_detect (fun _ _ _ => rfl) hunfiltered hcut
    exact ⟨secrets, others, hsecrets, hothers⟩
  have hpasses : ∀ id value, id ∉ ["datadog-access-token", "credential-bearing-url"] →
      (Reports secrets id value ↔ Reports others id value ∧
        webRuleMatchIsPlausible shannonEntropy id (String.ofList value) = true) := by
    intro id value hid
    refine reports_iff_unfiltered hconfig (fun _ _ _ _ => ?_) hsecrets hothers value
    show webRuleMatchIsPlausibleInContext id _ _ _ _ = true
    unfold webRuleMatchIsPlausibleInContext
    split
    · exact absurd hid (by decide)
    · exact absurd hid (by decide)
    · rfl
  refine ⟨hpasses, ?_, ?_⟩
  · intro before label body after der hbefore hlabel hbody hder
    rw [hpasses _ _ (by decide)]
    refine and_congr_right fun _ => ?_
    show privateKeyBodyIsPlausible (String.ofList _).toList = true ↔ _
    rw [String.toList_ofList, privateKeyBodyIsPlausible,
      pemDecodedBodyLen_pemText hbefore hlabel hbody hder]
    exact decide_eq_true_iff
  · intro lead padded user pass trail hlead htrail huser
    rw [hpasses _ _ (by decide)]
    refine and_congr_right fun _ => ?_
    show httpBasicAuthIsPlausible (String.ofList _).toList = true ↔ _
    rw [String.toList_ofList]
    exact httpBasicAuthIsPlausible_encodedPair hlead htrail huser

/-- A rule for one encoded pair. -/
def pairRules : List RuleRaw :=
  [{ id := "http-basic-auth", regex := some "ZXZlOnNlYWhvdXNl" }]

/-- A parser that reads nothing. -/
def silentSerde : SerdeJson where
  fromStr _ := none
  toString _ := ""

/-- A pair is reported. -/
theorem credentials_reported_iff_pair :
    ∃ config secrets, loadCompiled wordCrate asciiCase wordCrate.new (fun _ => true) none pairRules
        none = some config ∧
      detectExposedSecretsInner (webChecks wordChecks.capturesIter (fun _ => 0) id silentSerde)
        config "Basic ZXZlOnNlYWhvdXNl" true = some secrets ∧
      Reports secrets "http-basic-auth" (encodedPair false "eve".toList "seahouse".toList) := by
  obtain ⟨-, hreports⟩ := credentials_reported_iff wordChecks.capturesIter (fun _ => 0) id
    silentSerde asciiCase wordCrate.new (fun _ => true) none pairRules none _ rfl
    "Basic ZXZlOnNlYWhvdXNl"
  obtain ⟨-, -, hpair⟩ := hreports _ _ rfl rfl
  refine ⟨_, _, rfl, rfl, (hpair [] false "eve".toList "seahouse".toList [] ?_ ?_ ?_).mpr
    ⟨?_, ?_, ?_⟩⟩
  · decide
  · decide
  · decide
  · unfold Reports
    decide +kernel
  · decide
  · decide +kernel

end DomainStatus.Secrets
