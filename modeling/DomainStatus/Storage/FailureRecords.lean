import DomainStatus.Storage.Failure
import DomainStatus.Storage.FailureStore
import DomainStatus.Utils.Process
import DomainStatus.Utils.Sanitize

/-!
# What is recorded of a failed URL

`record_url_failure` of `src/storage/failure/record.rs` and its use by `handle_failure` of
`src/run/task.rs`: the record of a failure is made from the layers of its error, with texts of
bounded length. Read `failed_requests_recorded` first: for each URL whose request failed, the store
has the response that made it fail, however many tasks store their failures at once.
-/

namespace DomainStatus.Storage

open ErrorHandling Process Sanitize

/-! ## The record -/

/-- `FailureRecordParams`. -/
structure FailureRecordParams where
  url : String
  error : Error
  context : FailureContext
  retryCount : ℕ
  elapsedTime : F64
  runId : Option String

/-- The texts of the layers that `Error::chain` goes through. -/
def layerTexts : Error → List String
  | .ofStd value sources => (value :: sources).map Cause.toText
  | .message text => [text]
  | .context error text => text :: layerTexts error
  | .contextError error value => value.toText Cause.toText :: layerTexts error

/-- The text of the first error of the HTTP client, with that of its source. -/
def findReqwest : List Cause → Option String
  | [] => none
  | [.reqwest error] => some error.text
  | .reqwest error :: source :: _ => some (error.text ++ ": " ++ source.toText)
  | _ :: rest => findReqwest rest

/-- The message for an error, before it is sanitized. -/
def failureMessage (error : Error) : String :=
  match findReqwest error.chain with
  | some reqwestMsg =>
      if 3 < (layerTexts error).length then
        let chainSummary := ((layerTexts error).filter fun text => text ≠ reqwestMsg).take 3
        if chainSummary.isEmpty then reqwestMsg
        else reqwestMsg ++ " (error chain: " ++ " -> ".intercalate chainSummary ++ " -> ...)"
      else reqwestMsg
  | none =>
      match layerTexts error with
      | first :: second :: rest =>
          first ++ " (error chain: " ++ " -> ".intercalate (second :: rest) ++ ")"
      | _ => error.toText Cause.toText

/-- The most bytes of a header that are stored. -/
def maxHeaderValueLength : ℕ := 1000

/-- What stands behind a header that was cut. -/
def headerValueSuffix : List Char :=
  "... (truncated)".toList

/-- The value of a header within its bound. -/
def truncateHeaderValue (value : String) : Option String :=
  if Text.len value.toList ≤ maxHeaderValueLength then some value
  else
    (truncateUtf8WithSuffix value.toList maxHeaderValueLength headerValueSuffix).map String.ofList

/-- The header with its value within the bound. -/
def truncateHeader (header : String × String) : Option (String × String) :=
  (truncateHeaderValue header.2).map fun value => (header.1, value)

section Record

variable (properties : Text.CaseProperties) (extractDomain : String → Option String) (now : ℤ)

/-- The record of `record_url_failure`. The context of the request comes from the caller, or else
from the error. A result of `none` stands for a panic of a slice. -/
def failureRecord (params : FailureRecordParams) : Option UrlFailureRecord := do
  let extracted := extractFailureContext params.error
  let finalUrl := params.context.finalUrl.or extracted.finalUrl
  let redirectChain :=
    if params.context.redirectChain.isEmpty then extracted.redirectChain
    else params.context.redirectChain
  let responseHeaders :=
    if params.context.responseHeaders.isEmpty then extracted.responseHeaders
    else params.context.responseHeaders
  let errorMessage ← sanitizeAndTruncateErrorMessage (failureMessage params.error).toList
  let responseHeaders ← responseHeaders.mapM truncateHeader
  some
    { url := params.url
      finalUrl
      domain := (extractDomain params.url).getD "unknown"
      finalDomain := finalUrl.bind extractDomain
      errorType := extractErrorType properties params.error
      errorMessage := String.ofList errorMessage
      httpStatus := extractHttpStatus params.error
      retryCount := params.retryCount
      elapsedTimeSeconds := some params.elapsedTime
      timestamp := now
      runId := params.runId
      redirectChain
      responseHeaders }

/-- What `handle_failure` records. -/
def handleFailure (url : String) (error : Error) (retryCount : ℕ) (elapsed : F64)
    (runId : Option String) : Option UrlFailureRecord :=
  failureRecord properties extractDomain now
    { url, error, context := extractFailureContext error, retryCount, elapsedTime := elapsed,
      runId }

/-- A task for a URL: what its attempts meet, how long it took and when it ended. -/
structure FailedTask (α : Type) where
  url : String
  attempts : ℕ → Attempt α
  elapsed : F64
  now : ℤ
  runId : Option String

variable {α : Type}

/-- The run of the task with its retries. -/
def FailedTask.run (task : FailedTask α) : ProcessUrlResult α :=
  processUrl task.url task.attempts

/-- The last attempt of the task. -/
def FailedTask.last (task : FailedTask α) : Attempt α :=
  task.attempts task.run.retryCount

/-- The record of a task, if it failed. -/
def FailedTask.failure (task : FailedTask α) : Option UrlFailureRecord :=
  match task.run.result with
  | .ok _ => none
  | .error error =>
      handleFailure properties extractDomain task.now task.url error task.run.retryCount
        task.elapsed task.runId

end Record

/-! ## Bounds -/

/-- A header and what is stored of it. -/
def Shortened (header stored : String × String) : Prop :=
  stored.1 = header.1 ∧
    TruncateSpec header.2.toList maxHeaderValueLength headerValueSuffix stored.2.toList

/-- A header is shortened. -/
theorem truncateHeader_spec (header : String × String) :
    ∃ stored, truncateHeader header = some stored ∧ Shortened header stored := by
  obtain ⟨result, hresult, hspec⟩ := truncate_utf8_with_suffix_spec header.2.toList
    maxHeaderValueLength headerValueSuffix
  by_cases hfits : Text.len header.2.toList ≤ maxHeaderValueLength
  · refine ⟨header, ?_, rfl, ?_⟩
    · rw [truncateHeader, truncateHeaderValue, if_pos hfits]
      rfl
    · rwa [hspec.whole.mpr hfits] at hspec
  · refine ⟨(header.1, String.ofList result), ?_, rfl, ?_⟩
    · rw [truncateHeader, truncateHeaderValue, if_neg hfits, hresult]
      rfl
    · rwa [String.toList_ofList]

/-- All headers are shortened. -/
theorem mapM_truncateHeader_spec (headers : List (String × String)) :
    ∃ stored, headers.mapM truncateHeader = some stored ∧
      List.Forall₂ Shortened headers stored := by
  induction headers with
  | nil => exact ⟨[], rfl, .nil⟩
  | cons header rest ih =>
      obtain ⟨first, hfirst, hshort⟩ := truncateHeader_spec header
      obtain ⟨stored, hstored, hrest⟩ := ih
      refine ⟨first :: stored, ?_, .cons hshort hrest⟩
      rw [List.mapM_cons, hfirst, hstored]
      rfl

/-- A record is made for every error. -/
theorem handleFailure_spec (properties : Text.CaseProperties)
    (extractDomain : String → Option String) (now : ℤ) (url : String) (error : Error)
    (retryCount : ℕ) (elapsed : F64) (runId : Option String) :
    ∃ failure, handleFailure properties extractDomain now url error retryCount elapsed runId =
        some failure ∧
      failure.finalUrl = (extractFailureContext error).finalUrl ∧
      failure.redirectChain = (extractFailureContext error).redirectChain ∧
      List.Forall₂ Shortened (extractFailureContext error).responseHeaders
        failure.responseHeaders ∧
      failure.retryCount = retryCount ∧ BoundedMessage failure.errorMessage := by
  obtain ⟨message, hmessage, hbounded⟩ := sanitizeAndTruncate_bounded (failureMessage error)
  obtain ⟨headers, hheaders, hshort⟩ :=
    mapM_truncateHeader_spec (extractFailureContext error).responseHeaders
  simp only [handleFailure, failureRecord, ite_self, hmessage, hheaders, Option.bind_eq_bind,
    Option.bind_some, Option.or_self]
  exact ⟨_, rfl, rfl, rfl, hshort, rfl, hbounded⟩

/-! ## Failed requests -/

section Requests

variable {α : Type}

/-- A loop returns what its last attempt returns, an error perhaps with context values on it. -/
theorem executeWithRetry_result (operation : ℕ → Except Error α) (delays : List ℕ)
    (attempt : ℕ) :
    ∃ last, (executeWithRetry operation delays attempt).attempts = last + 1 ∧
      ((executeWithRetry operation delays attempt).result = operation last ∨
        ∃ failed values, operation last = .error failed ∧
          (executeWithRetry operation delays attempt).result =
            .error (failed.withContexts values)) := by
  induction delays generalizing attempt with
  | nil =>
      unfold executeWithRetry
      cases hop : operation attempt with
      | ok value => exact ⟨attempt, rfl, .inl hop.symm⟩
      | error failed =>
          cases hretry : isRetriableError failed with
          | false =>
              simp only [hretry, Bool.not_false, if_true]
              exact ⟨attempt, rfl, .inr ⟨failed, [.text "Non-retriable error"], hop, rfl⟩⟩
          | true =>
              simp only [hretry, Bool.not_true, Bool.false_eq_true, if_false]
              exact ⟨attempt, rfl, .inl hop.symm⟩
  | cons delay delays ih =>
      unfold executeWithRetry
      cases hop : operation attempt with
      | ok value => exact ⟨attempt, rfl, .inl hop.symm⟩
      | error failed =>
          cases hretry : isRetriableError failed with
          | false =>
              simp only [hretry, Bool.not_false, if_true]
              exact ⟨attempt, rfl, .inr ⟨failed, [.text "Non-retriable error"], hop, rfl⟩⟩
          | true =>
              simp only [hretry, Bool.not_true, Bool.false_eq_true, if_false]
              exact ih (attempt + 1)

/-- The headers of a response that makes a request fail. -/
def failedHeaders : Except ReqwestError Fetch.Response → List (String × String)
  | .ok response => responseHeaders response
  | .error _ => []

/-- The redirect walk of the last attempt ends, and the request for its final URL fails: it has no
response, or one with a failing status. -/
structure FailedTask.RequestFails (task : FailedTask α) (resolved : Resolved) : Prop where
  walked : task.last.resolved = .ok resolved
  status : ∀ response, task.last.response resolved = .ok response →
    isFailureStatus response.status.code

/-- The context that a failed request leaves. -/
def failedContext (attempt : Attempt α) (resolved : Resolved) : FailureContext where
  finalUrl := some resolved.finalUrl
  redirectChain := resolved.redirectChain.map Prod.fst
  responseHeaders := failedHeaders (attempt.response resolved)

/-- A request that fails behind the redirects fails with its context. -/
theorem handleHttpRequest_failed (url : String) {attempt : Attempt α} {resolved : Resolved}
    (hresolved : attempt.resolved = .ok resolved)
    (hstatus : ∀ response, attempt.response resolved = .ok response →
      isFailureStatus response.status.code) :
    ∃ below, handleHttpRequest url attempt =
      .error (attachFailureContext below (failedContext attempt resolved)) := by
  unfold Attempt.response at hstatus
  unfold failedContext Attempt.response handleHttpRequest
  simp only [hresolved]
  cases hreused : resolved.reusedResponse with
  | some response =>
      simp only [hreused] at hstatus
      simp only [hstatus response rfl, if_true]
      cases errorForStatus (attempt.statusText response) response with
      | error e => exact ⟨_, rfl⟩
      | ok passed => exact ⟨_, rfl⟩
  | none =>
      simp only [hreused] at hstatus
      cases hsent : attempt.sent with
      | error e => exact ⟨_, rfl⟩
      | ok response =>
          simp only [hstatus response hsent, if_true]
          cases errorForStatus (attempt.statusText response) response with
          | error e => exact ⟨_, rfl⟩
          | ok passed => exact ⟨_, rfl⟩

/-- What is recorded of a failed request: where it ended, how it got there, what was answered and
how often it was tried again. -/
structure RecordsRequest (task : FailedTask α) (resolved : Resolved)
    (failure : UrlFailureRecord) : Prop where
  finalUrl : failure.finalUrl = some resolved.finalUrl
  redirectChain : failure.redirectChain = resolved.redirectChain.map Prod.fst
  responseHeaders : List.Forall₂ Shortened (failedHeaders (task.last.response resolved))
    failure.responseHeaders
  retryCount : failure.retryCount = task.run.retryCount
  message : BoundedMessage failure.errorMessage

/-- A failed request leaves its record. -/
theorem failure_of_requestFails (properties : Text.CaseProperties)
    (extractDomain : String → Option String) {task : FailedTask α} {resolved : Resolved}
    (h : task.RequestFails resolved) :
    ∃ failure, task.failure properties extractDomain = some failure ∧
      RecordsRequest task resolved failure := by
  obtain ⟨below, hfailed⟩ := handleHttpRequest_failed task.url h.walked h.status
  have herror : ∃ values, task.run.result =
      .error ((attachFailureContext below (failedContext task.last resolved)).withContexts
        values) := by
    obtain ⟨last, hattempts, hresult⟩ := executeWithRetry_result
      (fun attempt => handleHttpRequest task.url (task.attempts attempt)) getRetryStrategy 0
    have hlast : task.run.retryCount = last := by
      show (runAttempts task.url task.attempts).attempts - 1 = last
      rw [runAttempts, hattempts, Nat.add_sub_cancel]
    have hop : handleHttpRequest task.url (task.attempts last) =
        .error (attachFailureContext below (failedContext task.last resolved)) := by
      rw [← hlast]
      exact hfailed
    rcases hresult with hsame | ⟨failed, values, hother, hwrapped⟩
    · exact ⟨[], hsame.trans hop⟩
    · rw [hop, Except.error.injEq] at hother
      rw [hother]
      exact ⟨values, hwrapped⟩
  obtain ⟨values, herror⟩ := herror
  obtain ⟨failure, hfailure, hfinal, hchain, hheaders, hretries, hmessage⟩ :=
    handleFailure_spec properties extractDomain task.now task.url
      ((attachFailureContext below (failedContext task.last resolved)).withContexts values)
      task.run.retryCount task.elapsed task.runId
  rw [extractFailureContext_withContexts] at hfinal hchain hheaders
  refine ⟨failure, ?_, hfinal, hchain, hheaders, hretries, hmessage⟩
  rw [FailedTask.failure, herror]
  exact hfailure

variable {ι : Type} [DecidableEq ι]

/-- Many tasks whose requests failed store their failures, each attempt perhaps stopped by a
statement that fails. What is stored of a task is its own failed request: where it ended, the hops
on the way in their order, the last value of each header name that it was answered with, cut to its
bound, and how often it was tried again. Its message is short and has no control characters. -/
theorem failed_requests_recorded (properties : Text.CaseProperties)
    (extractDomain : String → Option String) (tasks : ι → FailedTask α) (resolved : ι → Resolved)
    (hfails : ∀ caller, (tasks caller).RequestFails (resolved caller)) (before : FailureStore)
    (attempts : List (ι × FailureFaults)) :
    ∃ failures : ι → UrlFailureRecord,
      (∀ caller, (tasks caller).failure properties extractDomain = some (failures caller) ∧
        RecordsRequest (tasks caller) (resolved caller) (failures caller)) ∧
      StoredOnce failures before (insertUrlFailures failures before attempts).state
        (insertUrlFailures failures before attempts).results := by
  choose failures hfailures using fun caller =>
    failure_of_requestFails properties extractDomain (hfails caller)
  exact ⟨failures, hfailures, storedOnce_run failures before attempts⟩

/-- A task that meets a server that is not available. -/
def unavailableTask : FailedTask Unit where
  url := "https://a.test/"
  attempts _ := unavailableAttempt
  elapsed := 0
  now := 0
  runId := none

/-- Two tasks meet such a server, and the database is locked when one of them is stored. -/
theorem failed_requests_recorded_unavailable :
    ∃ failures : Bool → UrlFailureRecord,
      (∀ caller, unavailableTask.failure ⟨fun _ => false, fun _ => false⟩ (fun _ => none) =
          some (failures caller) ∧
        RecordsRequest unavailableTask
          ⟨"https://a.test/", [("https://a.test/", 503)],
            some ⟨⟨503, by decide, by decide⟩, [], []⟩⟩ (failures caller)) ∧
      StoredOnce failures .empty
        (insertUrlFailures failures .empty [(true, lockedHeaders), (false, fun _ => none)]).state
        (insertUrlFailures failures .empty
          [(true, lockedHeaders), (false, fun _ => none)]).results := by
  refine failed_requests_recorded _ _ (fun _ : Bool => unavailableTask) (fun _ => _) ?_ _ _
  intro caller
  constructor
  · rfl
  · intro response hresponse
    cases hresponse
    exact .inr (by decide)

end Requests

end DomainStatus.Storage
