import DomainStatus.ErrorHandling.Types
import DomainStatus.Fetch.Http
import DomainStatus.Lib.Anyhow

/-!
# Error causes

The standard error values that the program looks for in an error, after
`src/error_handling`, `src/utils/retry.rs` and `src/storage/failure/context.rs`: which of them are
retriable, how they are categorized, and how a failed request is wrapped with its context.
-/

namespace DomainStatus.ErrorHandling

open Fetch

/-- `reqwest::Error` by its predicates. -/
structure ReqwestError where
  status : Option StatusCode
  isBuilder : Bool
  isRedirect : Bool
  isStatus : Bool
  isTimeout : Bool
  isRequest : Bool
  isConnect : Bool
  isBody : Bool
  isDecode : Bool
  text : String
  deriving DecidableEq

/-- `hickory_resolver::net::NetError` by its predicates. -/
structure NetError where
  isNxDomain : Bool
  isNoRecordsFound : Bool
  isTimeout : Bool
  text : String
  deriving DecidableEq

/-- `FailureContext`. -/
structure FailureContext where
  finalUrl : Option String
  redirectChain : List String
  responseHeaders : List (String × String)
  deriving DecidableEq

/-- The standard error values that a cause is downcast to. -/
inductive Cause where
  | reqwest (error : ReqwestError)
  | urlParse (text : String)
  | sqlx (text : String)
  | net (error : NetError)
  | failureContext (context : FailureContext)
  | other (text : String)
  deriving DecidableEq

/-- The errors of the program, over the standard values that it looks for in them. -/
abbrev Error := Anyhow.Error Cause

/-- `HTTP_STATUS_TOO_MANY_REQUESTS`. -/
def httpStatusTooManyRequests : ℕ := 429

/-- `ReqwestErrorExt::is_retriable`. -/
def ReqwestError.isRetriable (error : ReqwestError) : Bool :=
  let byKind := error.isTimeout || error.isConnect || error.isRequest
  match error.status with
  | some status =>
      if status.code = httpStatusTooManyRequests then true
      else if 400 ≤ status.code ∧ status.code < 500 then false
      else if 500 ≤ status.code ∧ status.code < 600 then true
      else byKind
  | none => byKind

/-- `categorize_reqwest_error`: by the status first, and then by the predicates. -/
def categorizeReqwestError (error : ReqwestError) : ErrorType :=
  let byKind : ErrorType :=
    if error.isBuilder then .httpRequestBuilderError
    else if error.isRedirect then .httpRequestRedirectError
    else if error.isStatus then .httpRequestStatusError
    else if error.isTimeout then .httpRequestTimeoutError
    else if error.isRequest then .httpRequestRequestError
    else if error.isConnect then .httpRequestConnectError
    else if error.isBody then .httpRequestBodyError
    else if error.isDecode then .httpRequestDecodeError
    else .httpRequestOtherError
  match error.status with
  | some status =>
      if status.code = 400 then .httpRequestBadRequest
      else if status.code = 401 then .httpRequestUnauthorized
      else if status.code = 403 then .httpRequestBotDetectionError
      else if status.code = 404 then .httpRequestNotFound
      else if status.code = 429 then .httpRequestTooManyRequests
      else if status.code = 500 then .httpRequestInternalServerError
      else if status.code = 502 then .httpRequestBadGateway
      else if status.code = 503 then .httpRequestServiceUnavailable
      else if status.code = 504 then .httpRequestGatewayTimeout
      else if 400 ≤ status.code ∧ status.code < 600 then .httpRequestOtherError
      else byKind
  | none => byKind

/-- Why a name could not be resolved. -/
inductive DnsResolveErrorKind where
  | nxDomain | noRecords | timeout | other
  deriving DecidableEq

/-- A missing name comes before missing records, and these before a timeout. -/
def categorizeResolveError (error : NetError) : DnsResolveErrorKind :=
  if error.isNxDomain then .nxDomain
  else if error.isNoRecordsFound then .noRecords
  else if error.isTimeout then .timeout
  else .other

/-- The text of a `FailureContextError`. -/
def FailureContext.toText (context : FailureContext) : String :=
  match context.finalUrl with
  | some finalUrl =>
      if context.redirectChain.isEmpty then "Request failed for " ++ finalUrl
      else
        "Request failed for " ++ finalUrl ++ " (redirected from " ++
          context.redirectChain.headD finalUrl ++ " via " ++
          Nat.repr (context.redirectChain.length - 1) ++ " hop(s))"
  | none => "Request failed (no final URL available)"

/-- The text of a standard value. -/
def Cause.toText : Cause → String
  | .reqwest error => error.text
  | .urlParse text => text
  | .sqlx text => text
  | .net error => error.text
  | .failureContext context => context.toText
  | .other text => text

/-- The verdict of the first cause that is recognised. Unknown errors are not retried. -/
def isRetriableCause : List Cause → Bool
  | [] => false
  | .reqwest error :: _ => error.isRetriable
  | .urlParse _ :: _ => false
  | .sqlx _ :: _ => false
  | .net _ :: _ => true
  | _ :: causes => isRetriableCause causes

/-- The error is transient. -/
def isRetriableError (error : Error) : Bool :=
  isRetriableCause error.chain

/-- Wraps an error with the context of its request. The context is the new bottom layer, with the
error itself on top of it as a context value. -/
def attachFailureContext (error : Error) (context : FailureContext) : Error :=
  (Anyhow.Error.ofStd (.failureContext context) []).contextError error

/-- A wrapped error is never retriable: the wrapping hides what it wraps. -/
@[simp] theorem isRetriableError_attachFailureContext (error : Error) (context : FailureContext) :
    isRetriableError (attachFailureContext error context) = false := rfl

end DomainStatus.ErrorHandling
