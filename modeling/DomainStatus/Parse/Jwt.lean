import DomainStatus.Lib.Base64
import DomainStatus.Lib.Json
import DomainStatus.Parse.Secrets

/-!
# JSON Web Tokens

The header and the payload of a token, after `src/parse/jwt.rs`. Signatures are not checked. The
`serde_json` crate is a parameter. Read `base64urlDecode_encode` first: of the three attempts to
decode a part, the first that succeeds gives back the encoded bytes, with and without padding.
-/

namespace DomainStatus.Secrets

open Base64 Text

/-- `serde_json::from_str` for a value, and the text of a value. -/
structure SerdeJson where
  fromStr : String → Option Json
  toString : Json → String

/-- The bytes of a text. -/
def utf8Bytes (text : List Char) : List UInt8 :=
  text.flatMap String.utf8EncodeChar

/-- `String::from_utf8`. -/
def fromUtf8 (bytes : List UInt8) : Option String :=
  String.fromUTF8? bytes.toByteArray

/-- The last attempt adds padding, which its engine never takes. -/
def base64urlDecode (input : List Char) : Option (List UInt8) :=
  let padded :=
    if len input % 4 = 2 then input ++ ['=', '=']
    else if len input % 4 = 3 then input ++ ['=']
    else input
  ((decodeNoPad input).or (decodePadded input)).or (decodeNoPad padded)

/-- A claim in seconds since the epoch, in milliseconds. -/
def epochSecondsToMs (payload : Json) (key : String) : Option ℤ :=
  ((payload.get key).bind fun v => v.asI64.or v.castF64).map fun secs =>
    Json.saturatingMulI64 secs 1000

/-- The audience as a text. -/
def audienceText (serde : SerdeJson) : Json → String
  | .string text => text
  | other => serde.toString other

/-- The claims of a header and a payload. -/
def claimsOf (serde : SerdeJson) (headerStr payloadStr : String) (header payload : Json) :
    DecodedJwt where
  headerJson := headerStr
  payloadJson := payloadStr
  algorithm := (header.get "alg").bind Json.asStr
  tokenType := (header.get "typ").bind Json.asStr
  issuer := (payload.get "iss").bind Json.asStr
  subject := (payload.get "sub").bind Json.asStr
  audience := (payload.get "aud").map (audienceText serde)
  expirationMs := epochSecondsToMs payload "exp"
  issuedAtMs := epochSecondsToMs payload "iat"
  notBeforeMs := epochSecondsToMs payload "nbf"
  jwtId := (payload.get "jti").bind Json.asStr

/-- The claims of a token with three parts. -/
def decodeJwt (serde : SerdeJson) (token : List Char) : Option DecodedJwt :=
  let token := trimEndMatches (· = '\\') (trimChars token)
  match token.splitOn '.' with
  | [headerPart, payloadPart, _] => do
      let headerBytes ← base64urlDecode headerPart
      let payloadBytes ← base64urlDecode payloadPart
      let headerStr ← fromUtf8 headerBytes
      let payloadStr ← fromUtf8 payloadBytes
      let header ← serde.fromStr headerStr
      let payload ← serde.fromStr payloadStr
      some (claimsOf serde headerStr payloadStr header payload)
  | _ => none

/-- A token inside of another encoding, or else a plain one. -/
def decodeJwtBase64 (serde : SerdeJson) (encoded : List Char) : Option DecodedJwt :=
  let trimmed := trimChars encoded
  let inner := ((base64urlDecode trimmed).bind fromUtf8).bind fun inner =>
    decodeJwt serde inner.toList
  inner.or (decodeJwt serde trimmed)

/-! ## Encoded parts -/

variable {serde : SerdeJson} {bytes : List UInt8} {text signature : List Char}

/-- The bytes of a text are read back. -/
theorem fromUtf8_utf8Bytes (text : List Char) :
    fromUtf8 (utf8Bytes text) = some (String.ofList text) :=
  dif_pos ByteArray.isValidUTF8_utf8Encode

/-- Decoding inverts encoding, with padding and without. -/
theorem base64urlDecode_encode (padded : Bool) (bytes : List UInt8) :
    base64urlDecode (encode padded bytes) = some bytes := by
  rw [base64urlDecode]
  cases padded with
  | false => rw [decodeNoPad_encode, Option.some_or, Option.some_or]
  | true =>
      rcases decodeNoPad_encode_padded bytes with h | h
      · rw [h, Option.some_or, Option.some_or]
      · rw [h, Option.none_or, decodePadded_encode, Option.some_or]

/-- A text with a dot is no encoded text. -/
theorem base64urlDecode_dotted (h : '.' ∈ text) : base64urlDecode text = none := by
  have hdot : symbolValue '.' = none := by decide
  have hpadded : ∀ pad : List Char, decodeNoPad (text ++ pad) = none := fun pad =>
    decodeNoPad_eq_none (List.mem_append_left pad h) hdot
  have hplain : decodeNoPad text = none := decodeNoPad_eq_none h hdot
  rw [base64urlDecode, hplain, decodePadded_eq_none h hdot (by decide)]
  split_ifs <;> simp [hpadded, hplain]

/-- The characters that no encoded text has. -/
theorem not_mem_encode {c : Char} {padded : Bool} (hc : c ∉ alphabet) (hpad : c ≠ '=') :
    c ∉ encode padded bytes :=
  fun h => (mem_encode h).elim hc hpad

/-- Nothing that base64 writes is a blank. -/
theorem isWhitespace_of_mem_encode {padded : Bool} :
    ∀ c ∈ encode padded bytes, isWhitespace c = false := by
  have halphabet : ∀ c ∈ alphabet, isWhitespace c = false := by decide
  intro c hc
  rcases mem_encode hc with h | rfl
  · exact halphabet c h
  · rfl

/-! ## Tokens -/

/-- A text that may stand behind the last dot of a token. -/
def IsSignature (signature : List Char) : Prop :=
  ∀ c ∈ signature, c ≠ '.' ∧ isWhitespace c = false ∧ c ≠ '\\'

instance (signature : List Char) : Decidable (IsSignature signature) :=
  List.decidableBAll _ signature

/-- A token with this header, payload and signature. -/
def token (padHeader padPayload : Bool) (headerStr payloadStr : String) (signature : List Char) :
    List Char :=
  encode padHeader (utf8Bytes headerStr.toList) ++
    '.' :: (encode padPayload (utf8Bytes payloadStr.toList) ++ '.' :: signature)

variable {padHeader padPayload : Bool} {headerStr payloadStr : String}

/-- No blank and no backslash stands in a token. -/
theorem mem_token {c : Char} (hsignature : IsSignature signature)
    (h : c ∈ token padHeader padPayload headerStr payloadStr signature) :
    isWhitespace c = false ∧ c ≠ '\\' := by
  have hencoded : ∀ {padded : Bool} {bytes : List UInt8}, c ∈ encode padded bytes →
      isWhitespace c = false ∧ c ≠ '\\' := fun hmem =>
    ⟨isWhitespace_of_mem_encode c hmem,
      fun heq => not_mem_encode (by decide) (by decide) (heq ▸ hmem)⟩
  rw [token, List.mem_append, List.mem_cons, List.mem_append, List.mem_cons] at h
  rcases h with h | rfl | h | rfl | h
  · exact hencoded h
  · decide
  · exact hencoded h
  · decide
  · exact (hsignature c h).2

/-- Blanks around a token and backslashes behind it go away. -/
theorem trimEnd_token {lead trail : List Char} {slashes : ℕ} (hsignature : IsSignature signature)
    (hlead : Blank lead) (htrail : Blank trail) :
    trimEndMatches (· = '\\') (trimChars
      (lead ++ token padHeader padPayload headerStr payloadStr signature ++
        List.replicate slashes '\\' ++ trail)) =
      token padHeader padPayload headerStr payloadStr signature := by
  have hclean : ∀ c ∈ token padHeader padPayload headerStr payloadStr signature ++
      List.replicate slashes '\\', isWhitespace c = false := by
    intro c hc
    rcases List.mem_append.mp hc with hc | hc
    · exact (mem_token hsignature hc).1
    · rw [(List.mem_replicate.mp hc).2]
      rfl
  rw [trimChars_append_blank htrail, List.append_assoc, blank_append_trimChars hlead,
    trimChars_eq_self hclean]
  exact trimEndMatches_append_replicate fun h => (mem_token hsignature h).2 rfl

/-- A token is split into its three parts. -/
theorem splitOn_token (hsignature : IsSignature signature) :
    (token padHeader padPayload headerStr payloadStr signature).splitOn '.' =
      [encode padHeader (utf8Bytes headerStr.toList),
        encode padPayload (utf8Bytes payloadStr.toList), signature] := by
  have hdot : ∀ {padded : Bool} {bytes : List UInt8}, '.' ∉ encode padded bytes :=
    not_mem_encode (by decide) (by decide)
  rw [token, List.splitOn_append_cons_self_of_not_mem hdot,
    List.splitOn_append_cons_self_of_not_mem hdot,
    List.splitOn_eq_singleton fun h => (hsignature '.' h).1 rfl]

/-- Decoding gives back the header and the payload of a token, with blanks and backslashes around
it. -/
theorem decodeJwt_token {header payload : Json} {lead trail : List Char} {slashes : ℕ}
    (hheader : serde.fromStr headerStr = some header)
    (hpayload : serde.fromStr payloadStr = some payload) (hsignature : IsSignature signature)
    (hlead : Blank lead) (htrail : Blank trail) :
    decodeJwt serde (lead ++ token padHeader padPayload headerStr payloadStr signature ++
        List.replicate slashes '\\' ++ trail) =
      some (claimsOf serde headerStr payloadStr header payload) := by
  rw [decodeJwt, trimEnd_token hsignature hlead htrail, splitOn_token hsignature]
  simp only [base64urlDecode_encode, fromUtf8_utf8Bytes, String.ofList_toList,
    Option.bind_eq_bind, Option.bind_some, hheader, hpayload]

/-- The token alone. -/
theorem decodeJwt_token_alone {header payload : Json}
    (hheader : serde.fromStr headerStr = some header)
    (hpayload : serde.fromStr payloadStr = some payload) (hsignature : IsSignature signature) :
    decodeJwt serde (token padHeader padPayload headerStr payloadStr signature) =
      some (claimsOf serde headerStr payloadStr header payload) := by
  have h : decodeJwt serde ([] ++ token padHeader padPayload headerStr payloadStr signature ++
      List.replicate 0 '\\' ++ []) = some (claimsOf serde headerStr payloadStr header payload) :=
    decodeJwt_token hheader hpayload hsignature (List.forall_mem_nil _) (List.forall_mem_nil _)
  simpa using h

/-- A plain token is not taken for an encoded one. -/
theorem decodeJwtBase64_token (hsignature : IsSignature signature) :
    decodeJwtBase64 serde (token padHeader padPayload headerStr payloadStr signature) =
      decodeJwt serde (token padHeader padPayload headerStr payloadStr signature) := by
  have hdot : '.' ∈ token padHeader padPayload headerStr payloadStr signature := by
    simp [token]
  rw [decodeJwtBase64, trimChars_eq_self fun c hc => (mem_token hsignature hc).1,
    base64urlDecode_dotted hdot]
  rfl

/-- An encoded token is decoded first. -/
theorem decodeJwtBase64_encode {jwt : DecodedJwt} {padded : Bool}
    (h : decodeJwt serde text = some jwt) :
    decodeJwtBase64 serde (encode padded (utf8Bytes text)) = some jwt := by
  rw [decodeJwtBase64, trimChars_eq_self isWhitespace_of_mem_encode, base64urlDecode_encode]
  simp only [Option.bind_some, fromUtf8_utf8Bytes, String.toList_ofList, h, Option.some_or]

/-- A whole number of seconds is multiplied and kept within the `i64`. -/
theorem epochSecondsToMs_eq {payload value : Json} {key : String} {secs : ℤ}
    (hvalue : payload.get key = some value) (hsecs : value.IsInteger secs)
    (hfits : -2 ^ 63 ≤ secs ∧ secs < 2 ^ 63) :
    epochSecondsToMs payload key = some (Json.saturatingMulI64 secs 1000) := by
  have hread : value.asI64.or value.castF64 = some secs := by
    cases value with
    | posInt number =>
        have hsmall : number.toNat < 2 ^ 63 := by
          have h : secs = number.toNat := hsecs
          omega
        rw [Json.asI64, if_pos hsmall, Option.some_or, show secs = number.toNat from hsecs]
    | negInt number => rw [Json.asI64, Option.some_or, show secs = number.toInt from hsecs]
    | float bits =>
        change some (Json.castDouble bits) = some secs
        rw [Json.castDouble_eq hsecs.1 hsecs.2 hfits]
    | _ => exact hsecs.elim
  rw [epochSecondsToMs, hvalue, Option.bind_some, hread, Option.map_some]

/-- Decoding a token inverts its encoding, plain or encoded once more, and the times of the payload
are taken over in milliseconds. A text is valid JSON when the reader takes it. -/
theorem decode_jwt_inverts (serde : SerdeJson) (padHeader padPayload padToken : Bool)
    (headerStr payloadStr : String) (header payload : Json) (signature lead trail : List Char)
    (slashes : ℕ) (hheader : serde.fromStr headerStr = some header)
    (hpayload : serde.fromStr payloadStr = some payload) (hsignature : IsSignature signature)
    (hlead : Blank lead) (htrail : Blank trail) :
    let t := token padHeader padPayload headerStr payloadStr signature
    ∃ jwt, decodeJwt serde (lead ++ t ++ List.replicate slashes '\\' ++ trail) = some jwt ∧
      jwt.headerJson = headerStr ∧ jwt.payloadJson = payloadStr ∧
      decodeJwtBase64 serde t = some jwt ∧
      decodeJwtBase64 serde (encode padToken (utf8Bytes t)) = some jwt ∧
      ∀ claim ∈ [("exp", jwt.expirationMs), ("iat", jwt.issuedAtMs), ("nbf", jwt.notBeforeMs)],
        ∀ value secs, payload.get claim.1 = some value → value.IsInteger secs →
          -2 ^ 63 ≤ secs ∧ secs < 2 ^ 63 →
          claim.2 = some (max (-2 ^ 63) (min (2 ^ 63 - 1) (secs * 1000))) := by
  intro t
  have hplain : decodeJwt serde t = some (claimsOf serde headerStr payloadStr header payload) :=
    decodeJwt_token_alone hheader hpayload hsignature
  refine ⟨_, decodeJwt_token hheader hpayload hsignature hlead htrail, rfl, rfl,
    (decodeJwtBase64_token hsignature).trans hplain, decodeJwtBase64_encode hplain, ?_⟩
  intro claim hclaim value secs hvalue hsecs hfits
  simp only [List.mem_cons, List.not_mem_nil, or_false] at hclaim
  rcases hclaim with rfl | rfl | rfl <;> exact epochSecondsToMs_eq hvalue hsecs hfits

/-- A reader that knows two texts. -/
def twoTexts : SerdeJson where
  fromStr text :=
    if text = "\x7b\x7d" then some (.object [])
    else if text = "\x7b\"exp\":7\x7d" then some (.object [("exp", .posInt 7)])
    else none
  toString _ := ""

/-- A token is decoded behind a blank and in front of backslashes. -/
theorem decode_jwt_inverts_two_texts :
    ∃ jwt, decodeJwt twoTexts ([' '] ++
        token true false "\x7b\x7d" "\x7b\"exp\":7\x7d" ['s'] ++ List.replicate 2 '\\' ++ ['\n']) =
      some jwt ∧ jwt.expirationMs = some 7000 := by
  obtain ⟨jwt, hjwt, -, -, -, -, htimes⟩ := decode_jwt_inverts twoTexts true false true
    "\x7b\x7d" "\x7b\"exp\":7\x7d" (.object []) (.object [("exp", .posInt 7)]) ['s'] [' '] ['\n'] 2
    rfl rfl (by decide) (by decide) (by decide)
  refine ⟨jwt, hjwt, ?_⟩
  exact htimes ("exp", jwt.expirationMs) List.mem_cons_self (.posInt 7) 7 rfl rfl (by decide)

end DomainStatus.Secrets
