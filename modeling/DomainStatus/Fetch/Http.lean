import DomainStatus.Security.UrlValidation

/-!
# Requests and responses

What the fetchers of `src/fetch` see of the HTTP client: a request for a URL meets a transport error
or a response with a status, a `Location`, and a body that arrives in chunks. The clients of the
scan follow no redirect themselves. `stream_bytes_with_limit` of `src/fetch/stream.rs` collects a
body under a size limit.
-/

namespace DomainStatus.Fetch

open Security

/-- `reqwest::StatusCode`: the crate `http` admits the codes 100 to 999 only. -/
structure StatusCode where
  code : ℕ
  lower : 100 ≤ code
  upper : code < 1000
  deriving DecidableEq

namespace StatusCode

/-- `2xx`. -/
def isSuccess (status : StatusCode) : Bool := 200 ≤ status.code && status.code < 300

/-- `3xx`. -/
def isRedirection (status : StatusCode) : Bool := 300 ≤ status.code && status.code < 400

end StatusCode

/-- A response, as far as the fetchers read it: its status, its headers with their names in lower
case, and the chunks of its body, `none` being a failed read. -/
structure Response where
  status : StatusCode
  headers : List (String × List UInt8)
  chunks : List (Option (List UInt8))
  deriving DecidableEq

/-- `headers().get(LOCATION)`: the first header of that name. -/
def Response.location (response : Response) : Option (List UInt8) :=
  response.headers.lookup "location"

/-- The network: what the request with this number for this URL meets, `none` being a transport
error or a timeout. -/
abbrev Network := ℕ → String → Option Response

/-- A result together with the URLs that were requested to obtain it. -/
structure Requested (α : Type) where
  requests : List String
  result : α

/-- `HeaderValue::to_str`: the text of a header of visible ASCII characters, spaces and tabs. -/
def headerToStr (value : List UInt8) : Option String :=
  if value.all fun byte => (32 ≤ byte && byte < 127) || byte == 9 then
    some (String.ofList (value.map fun byte => Char.ofNat byte.toNat))
  else none

/-- The client sends a request for this text: it parses as an `http` or `https` URL with a host.
Every other text is a builder error before any connection. -/
def reqwestAccepts (U : UrlCrate) (url : String) : Bool :=
  match U.parse url with
  | none => false
  | some parsed =>
      (U.host parsed).isSome && (U.scheme parsed == "http" || U.scheme parsed == "https")

/-- `client.get(url).send()`. -/
def send (U : UrlCrate) (net : Network) (number : ℕ) (url : String) :
    Requested (Option Response) :=
  if reqwestAccepts U url then ⟨[url], net number url⟩ else ⟨[], none⟩

/-- What to do with a body that exceeds the limit. -/
inductive OnLimit where
  | truncate
  | abort
  | error
  deriving DecidableEq

/-- A body that was read within a limit, as a whole or cut. -/
inductive StreamedBytes where
  | complete (bytes : List UInt8)
  | truncated (bytes : List UInt8)
  deriving DecidableEq

/-- The bytes that were read. -/
def StreamedBytes.intoBytes : StreamedBytes → List UInt8
  | .complete bytes | .truncated bytes => bytes

/-- Whether the body went on. -/
def StreamedBytes.isTruncated : StreamedBytes → Bool
  | .complete _ => false
  | .truncated _ => true

/-- Why a body could not be read. -/
inductive StreamBytesError where
  | read
  | limitExceeded
  | tooLarge (got max : ℕ)
  deriving DecidableEq

/-- Collects the chunks of a body behind `accumulated`, at most `maxSize` bytes of them. -/
def streamBytesWithLimit (maxSize : ℕ) (onLimit : OnLimit) (accumulated : List UInt8) :
    List (Option (List UInt8)) → Except StreamBytesError StreamedBytes
  | [] => .ok (.complete accumulated)
  | none :: _ => .error .read
  | some chunk :: rest =>
      if maxSize < accumulated.length + chunk.length then
        match onLimit with
        | .truncate =>
            .ok (.truncated (accumulated ++ chunk.take (maxSize - accumulated.length)))
        | .abort => .error .limitExceeded
        | .error => .error (.tooLarge (accumulated.length + chunk.length) maxSize)
      else streamBytesWithLimit maxSize onLimit (accumulated ++ chunk) rest

end DomainStatus.Fetch
