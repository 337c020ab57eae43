import DomainStatus.Lib.Text

/-!
# `Set-Cookie`

The cookies that a response sets, with their attributes, after `parse_set_cookie` of
`src/fetch/cookies.rs`. They are stored with the page, and fingerprints ask for their values.
-/

namespace DomainStatus.Fetch

open Text

/-- The headers of a response in their order, with lower-case names. A value that is no visible
ASCII text is `none`. -/
abbrev HeaderMap :=
  List (String × Option String)

/-- The attributes read so far. A `SameSite` that is not allowed is never undone. -/
structure CookieAttributes where
  secure : Bool := false
  httpOnly : Bool := false
  sameSite : Option String := none
  sameSiteInvalid : Bool := false
  domain : Option String := none
  path : Option String := none
  deriving DecidableEq

/-- A cookie of a `Set-Cookie` header, with its attributes. -/
structure ParsedSetCookie where
  name : String
  value : Option String
  secure : Bool
  httpOnly : Bool
  sameSite : Option String
  domain : Option String
  path : Option String

/-- `eq_ignore_ascii_case` with the name of an attribute. -/
def named (attrName : List Char) (attr : String) : Bool :=
  eqIgnoreAsciiCase (String.ofList attrName) attr

/-- The values that `SameSite` may have. -/
def allowlistedSameSite (raw : List Char) : Option String :=
  let token := trimChars raw
  if named token "strict" then some "strict"
  else if named token "lax" then some "lax"
  else if named token "none" then some "none"
  else none

/-- The body of the loop over the attributes, for the name and the value of one. -/
def absorbAttribute (state : CookieAttributes) (attrName : List Char)
    (attrValue : Option (List Char)) : CookieAttributes :=
  if named attrName "secure" then { state with secure := true }
  else if named attrName "httponly" then { state with httpOnly := true }
  else if named attrName "samesite" then
    match attrValue.bind allowlistedSameSite with
    | some value =>
        if state.sameSite.isNone && !state.sameSiteInvalid then
          { state with sameSite := some value }
        else state
    | none => { state with sameSite := none, sameSiteInvalid := true }
  else if named attrName "domain" then
    { state with domain := (attrValue.filter fun value => value ≠ []).map String.ofList }
  else if named attrName "path" then { state with path := attrValue.map String.ofList }
  else state

/-- The name in front of the first `=` and the value behind it. -/
def splitNameValue (part : List Char) : List Char × Option (List Char) :=
  match splitOnce '=' part with
  | some (name, value) => (trimChars name, some (trimChars value))
  | none => (trimChars part, none)

/-- The body of the loop over the parts behind the name and the value. -/
def readAttribute (state : CookieAttributes) (part : List Char) : CookieAttributes :=
  let part := trimChars part
  if part = [] then state
  else
    let (attrName, attrValue) := splitNameValue part
    absorbAttribute state attrName attrValue

/-- The cookie of one header. A later attribute of a name replaces an earlier one. -/
def parseSetCookie (s : List Char) : Option ParsedSetCookie :=
  match s.splitOn ';' with
  | [] => none
  | nameValue :: parts =>
      let (name, value) := splitNameValue nameValue
      if name = [] then none
      else
        let state := parts.foldl readAttribute {}
        some
          { name := String.ofList name
            value := value.map String.ofList
            secure := state.secure
            httpOnly := state.httpOnly
            sameSite := state.sameSite
            domain := state.domain
            path := state.path }

/-- The cookies that a response sets. -/
def parseAllSetCookies (headers : HeaderMap) : List ParsedSetCookie :=
  ((headers.filter (·.1 = "set-cookie")).filterMap Prod.snd).filterMap fun value =>
    parseSetCookie value.toList

end DomainStatus.Fetch
