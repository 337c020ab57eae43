import DomainStatus.ErrorHandling.Causes

/-!
# Retries of a URL

`process_url` and `execute_with_retry` of `src/utils/process.rs`, the backoff of
`src/error_handling/categorization.rs`, and `handle_http_request` of `src/fetch/handler/request.rs`.
An `Attempt` holds what one attempt meets: the outcome of the redirect walk, of the fresh request
that is sent when the walk kept no response, and of the processing of the final response.

`process_url_retries_iff` compares the attempts that are made with the documented rule. Two things
break it: a failed request is wrapped so that the retry rule no longer sees it, and the backoff
yields one delay more than the budget allows.
-/

namespace DomainStatus.Process

open ErrorHandling Fetch

/-- The delay before the first retry. -/
def retryInitialDelayMs : ℕ := 500

/-- By how much the delays grow. -/
def retryFactor : ℕ := 2

/-- The longest delay. -/
def retryMaxDelayMs : ℕ := 15 * 1000

/-- The budget of attempts, the initial one included. -/
def retryMaxAttempts : ℕ := 3

/-- The most headers that are kept of a failed response. -/
def maxHeaderCount : ℕ := 100

/-- The delays that `ExponentialBackoff` yields, in milliseconds. -/
def exponentialBackoff (factor maxDelay : ℕ) : (remaining currentMs : ℕ) → List ℕ
  | 0, _ => []
  | remaining + 1, currentMs =>
      min currentMs maxDelay ::
        exponentialBackoff factor maxDelay remaining (min (currentMs * factor) (2 ^ 64 - 1))

/-- The delays between the attempts. -/
def getRetryStrategy : List ℕ :=
  exponentialBackoff retryFactor retryMaxDelayMs retryMaxAttempts retryInitialDelayMs

/-- The outcome of `execute_with_retry` with the attempts made, the delays slept, and the failures
recorded as not retriable. -/
structure RetryRun (α : Type) where
  attempts : ℕ
  slept : List ℕ
  nonRetriableFailures : ℕ
  result : Except Error α

/-- The retry loop from attempt number `attempt` on, with the delays that are left. -/
def executeWithRetry {α : Type} (operation : ℕ → Except Error α) :
    (delays : List ℕ) → (attempt : ℕ) → RetryRun α
  | delays, attempt =>
      match operation attempt with
      | .ok value => ⟨attempt + 1, [], 0, .ok value⟩
      | .error error =>
          if !isRetriableError error then
            ⟨attempt + 1, [], 1, .error (error.context "Non-retriable error")⟩
          else
            match delays with
            | [] => ⟨attempt + 1, [], 0, .error error⟩
            | delay :: delays =>
                let rest := executeWithRetry operation delays (attempt + 1)
                { rest with slept := delay :: rest.slept }

/-- What `resolve_redirect_chain` returns. -/
structure Resolved where
  finalUrl : String
  redirectChain : List (String × ℕ)
  reusedResponse : Option Response

/-- What one attempt meets. `statusText` is the text that the client gives to a status error, and
`α` is what a processed response gives. -/
structure Attempt (α : Type) where
  resolved : Except Error Resolved
  sent : Except ReqwestError Response
  statusText : Response → String
  handled : Response → Except Error α

/-- Statuses that go to the failure path. -/
def isFailureStatus (code : ℕ) : Prop :=
  code = 429 ∨ 500 ≤ code ∧ code < 600

instance (code : ℕ) : Decidable (isFailureStatus code) :=
  inferInstanceAs (Decidable (_ ∨ _))

/-- `Response::error_for_status`: an error for the codes 400 to 599, of no other kind. -/
def errorForStatus (text : String) (response : Response) : Except ReqwestError Response :=
  if 400 ≤ response.status.code ∧ response.status.code < 600 then
    .error
      { status := some response.status, isBuilder := false, isRedirect := false, isStatus := true
        isTimeout := false, isRequest := false, isConnect := false, isBody := false
        isDecode := false, text }
  else .ok response

/-- The headers that a failure keeps. -/
def responseHeaders (response : Response) : List (String × String) :=
  (response.headers.take maxHeaderCount).map fun (name, value) =>
    (name, (headerToStr value).getD "")

variable {α : Type}

/-- One attempt. The statistics that it updates on the way are left out. -/
def handleHttpRequest (url : String) (attempt : Attempt α) : Except Error α :=
  match attempt.resolved with
  | .error error => .error error
  | .ok resolved =>
      let res : Except ReqwestError Response := match resolved.reusedResponse with
        | some response => .ok response
        | none => attempt.sent
      let failureContext : List (String × String) → FailureContext := fun headers =>
        { finalUrl := some resolved.finalUrl
          redirectChain := resolved.redirectChain.map Prod.fst
          responseHeaders := headers }
      match res with
      | .ok response =>
          if isFailureStatus response.status.code then
            match errorForStatus (attempt.statusText response) response with
            | .error e =>
                .error (attachFailureContext
                  ((Anyhow.Error.ofStd (Cause.reqwest e) []).context
                    ("HTTP request failed for " ++ url))
                  (failureContext (responseHeaders response)))
            | .ok _ =>
                .error (attachFailureContext
                  (.message ("HTTP request for " ++ url ++ " returned status " ++
                    Nat.repr response.status.code ++ " (treated as failure)"))
                  (failureContext (responseHeaders response)))
          else attempt.handled response
      | .error e =>
          .error (attachFailureContext
            ((Anyhow.Error.ofStd (Cause.reqwest e) []).context ("HTTP request failed for " ++ url))
            (failureContext []))

/-- `ProcessUrlResult`. -/
structure ProcessUrlResult (α : Type) where
  result : Except Error α
  retryCount : ℕ

/-- The attempts on a URL: attempt number `k` meets `attempts k`. -/
def runAttempts (url : String) (attempts : ℕ → Attempt α) : RetryRun α :=
  executeWithRetry (fun k => handleHttpRequest url (attempts k)) getRetryStrategy 0

/-- The result of a URL and how often it was tried again. -/
def processUrl (url : String) (attempts : ℕ → Attempt α) : ProcessUrlResult α :=
  let run := runAttempts url attempts
  ⟨run.result, run.attempts - 1⟩

/-! ## The documented rule -/

/-- The final response of an attempt whose redirect walk succeeded. -/
def Attempt.response (attempt : Attempt α) (resolved : Resolved) : Except ReqwestError Response :=
  match resolved.reusedResponse with
  | some response => .ok response
  | none => attempt.sent

/-- The request for the final response failed in a way that should be retried: a status 429 or 5xx,
or a retriable transport error of the fresh request. -/
def Attempt.RequestFailed (attempt : Attempt α) : Prop :=
  match attempt.resolved with
  | .error _ => False
  | .ok resolved =>
      match attempt.response resolved with
      | .error e => e.isRetriable = true
      | .ok response => isFailureStatus response.status.code

/-- The redirect walk, or the processing of a response that is not a failure, ended with an error
that should be retried. -/
def Attempt.StepFailed (attempt : Attempt α) : Prop :=
  match attempt.resolved with
  | .error error => isRetriableError error = true
  | .ok resolved =>
      match attempt.response resolved with
      | .error _ => False
      | .ok response =>
          ¬ isFailureStatus response.status.code ∧
            ∃ error, attempt.handled response = .error error ∧ isRetriableError error = true

/-- The outcome should be retried. -/
def Attempt.Transient (attempt : Attempt α) : Prop :=
  attempt.StepFailed ∨ attempt.RequestFailed

/-- A further attempt follows an outcome exactly if the outcome is transient and the budget is not
used up, and the retries are the attempts but the first. -/
def RetriesAsDocumented (url : String) (attempts : ℕ → Attempt α) : Prop :=
  0 < (runAttempts url attempts).attempts ∧
  (∀ k < (runAttempts url attempts).attempts,
    k + 1 < (runAttempts url attempts).attempts ↔
      (attempts k).Transient ∧ k + 1 < retryMaxAttempts) ∧
  (processUrl url attempts).retryCount + 1 = (runAttempts url attempts).attempts

/-! ## Attempts made -/

/-- The outcome is an error that the retry rule recognises. -/
def Retriable (outcome : Except Error α) : Prop :=
  ∃ error, outcome = .error error ∧ isRetriableError error = true

/-- Every failed request is wrapped, so the retry rule sees the errors of the other steps only. -/
theorem retriable_handle_http_request (url : String) (attempt : Attempt α) :
    Retriable (handleHttpRequest url attempt) ↔ attempt.StepFailed := by
  unfold Retriable handleHttpRequest Attempt.StepFailed Attempt.response
  cases attempt.resolved with
  | error error => simp
  | ok resolved =>
      simp only
      cases (match resolved.reusedResponse with
        | some response => Except.ok response
        | none => attempt.sent : Except ReqwestError Response) with
      | error e => simp
      | ok response =>
          by_cases hstatus : isFailureStatus response.status.code
          · cases hfailed : errorForStatus (attempt.statusText response) response <;>
              simp [hstatus, hfailed]
          · simp [hstatus]

/-- The loop stops at the first outcome that is not retriable, or when the delays are used up. -/
theorem execute_with_retry_attempts (operation : ℕ → Except Error α) (delays : List ℕ)
    (attempt : ℕ) :
    ∃ retries ≤ delays.length,
      (executeWithRetry operation delays attempt).attempts = attempt + retries + 1 ∧
      (∀ k < retries, Retriable (operation (attempt + k))) ∧
      (Retriable (operation (attempt + retries)) → retries = delays.length) := by
  induction delays generalizing attempt with
  | nil =>
      refine ⟨0, by simp, ?_, by simp, by simp⟩
      unfold executeWithRetry
      cases operation attempt with
      | ok value => rfl
      | error error => cases hretry : isRetriableError error <;> simp [hretry]
  | cons delay delays ih =>
      cases hop : operation attempt with
      | ok value =>
          exact ⟨0, by simp, by simp [executeWithRetry, hop], by simp, by simp [Retriable, hop]⟩
      | error error =>
          cases hretry : isRetriableError error with
          | false =>
              exact ⟨0, by simp, by simp [executeWithRetry, hop, hretry], by simp,
                by simp [Retriable, hop, hretry]⟩
          | true =>
              obtain ⟨retries, hle, hattempts, hbefore, hlast⟩ := ih (attempt + 1)
              refine ⟨retries + 1, by simpa using hle, ?_, ?_, ?_⟩
              · rw [executeWithRetry]
                simp only [hop, hretry, Bool.not_true, Bool.false_eq_true, if_false, hattempts]
                omega
              · intro k hk
                cases k with
                | zero => exact ⟨error, hop, hretry⟩
                | succ k =>
                    have hnext := hbefore k (by omega)
                    rwa [show attempt + 1 + k = attempt + (k + 1) by omega] at hnext
              · intro hretriable
                rw [show attempt + (retries + 1) = attempt + 1 + retries by omega] at hretriable
                simpa using hlast hretriable

/-- The backoff yields a delay for each attempt of the budget. -/
theorem length_exponential_backoff (factor maxDelay remaining currentMs : ℕ) :
    (exponentialBackoff factor maxDelay remaining currentMs).length = remaining := by
  induction remaining generalizing currentMs with
  | zero => rfl
  | succ remaining ih => simp [exponentialBackoff, ih]

/-- The attempts on a URL end after the first outcome that is not a failed step, or after one
attempt more than the budget. -/
theorem run_attempts_attempts (url : String) (attempts : ℕ → Attempt α) :
    ∃ retries ≤ retryMaxAttempts, (runAttempts url attempts).attempts = retries + 1 ∧
      (∀ k < retries, (attempts k).StepFailed) ∧
      ((attempts retries).StepFailed → retries = retryMaxAttempts) := by
  obtain ⟨retries, hle, hattempts, hbefore, hlast⟩ := execute_with_retry_attempts
    (fun k => handleHttpRequest url (attempts k)) getRetryStrategy 0
  rw [getRetryStrategy, length_exponential_backoff] at hle hlast
  simp only [Nat.zero_add, retriable_handle_http_request] at hattempts hbefore hlast
  exact ⟨retries, hle, hattempts, hbefore, hlast⟩

/-- The retries follow the documented rule exactly if one of the outcomes of the budget is not a
failed step of the redirect walk or of the processing, and the first such outcome is a failed
request only as the last outcome of the budget. -/
theorem process_url_retries_iff (url : String) (attempts : ℕ → Attempt α) :
    RetriesAsDocumented url attempts ↔
      ∃ retries < retryMaxAttempts, (∀ k < retries, (attempts k).StepFailed) ∧
        ¬ (attempts retries).StepFailed ∧
        ((attempts retries).RequestFailed → retries + 1 = retryMaxAttempts) := by
  obtain ⟨made, hmade, hattempts, hbefore, hlast⟩ := run_attempts_attempts url attempts
  have hcount : (processUrl url attempts).retryCount + 1 = (runAttempts url attempts).attempts := by
    simp [processUrl, hattempts]
  constructor
  · intro h
    obtain ⟨-, hrule, -⟩ := h
    simp only [hattempts] at hrule
    have hfew : made < retryMaxAttempts := by
      by_contra hnot
      -- All outcomes of the budget are failed steps, so one attempt too many is made.
      have hmax : made = retryMaxAttempts := by omega
      have hextra := (hrule (made - 1) (by omega)).mp (by
        have hpos : 0 < retryMaxAttempts := by decide
        omega)
      omega
    refine ⟨made, hfew, hbefore, fun hstep => by have := hlast hstep; omega, fun hrequest => ?_⟩
    by_contra hne
    have hmore := (hrule made (by omega)).mpr ⟨Or.inr hrequest, by omega⟩
    omega
  · intro h
    obtain ⟨retries, hlt, hsteps, hstop, hrequest⟩ := h
    -- The run stops at the first attempt whose step does not fail, and that attempt is unique.
    have heq : made = retries := by
      rcases Nat.lt_trichotomy made retries with hlt' | heq | hgt
      · have := hlast (hsteps made hlt')
        omega
      · exact heq
      · exact absurd (hbefore retries hgt) hstop
    subst heq
    refine ⟨by omega, fun k hk => ?_, hcount⟩
    rw [hattempts] at hk ⊢
    rcases Nat.lt_succ_iff_lt_or_eq.mp hk with hk | rfl
    · exact ⟨fun _ => ⟨Or.inl (hbefore k hk), by omega⟩, fun _ => by omega⟩
    · refine ⟨fun h => by omega, ?_⟩
      intro h
      obtain ⟨hstep | hfailed, hbudget⟩ := h
      · exact absurd hstep hstop
      · have := hrequest hfailed
        omega

/-- A server that answers every attempt with 503. -/
def unavailableAttempt : Attempt Unit where
  resolved := .ok ⟨"https://a.test/", [("https://a.test/", 503)],
    some ⟨⟨503, by decide, by decide⟩, [], []⟩⟩
  sent := .ok ⟨⟨503, by decide, by decide⟩, [], []⟩
  statusText _ := "HTTP status server error (503 Service Unavailable) for url (https://a.test/)"
  handled _ := .ok ()

/-- What the client says of a server that refuses the connection. -/
def refusedError : ReqwestError where
  status := none
  isBuilder := false
  isRedirect := false
  isStatus := false
  isTimeout := false
  isRequest := true
  isConnect := true
  isBody := false
  isDecode := false
  text := "error sending request for url (https://a.test/)"

/-- A server that refuses every connection. -/
def refusedAttempt : Attempt Unit where
  resolved := .error (.ofStd (.reqwest refusedError) [.other "client error (Connect)",
    .other "tcp connect error", .other "Connection refused (os error 111)"])
  sent := unavailableAttempt.sent
  statusText _ := ""
  handled _ := .ok ()

/-- The 503 is not retried at all, and the server that refuses is asked four times. -/
theorem process_url_misses_retries :
    ¬ RetriesAsDocumented "https://a.test/" (fun _ => unavailableAttempt) ∧
      ¬ RetriesAsDocumented "https://a.test/" (fun _ => refusedAttempt) := by
  constructor
  · intro h
    obtain ⟨-, hrule, -⟩ := h
    have hone : (runAttempts "https://a.test/" fun _ => unavailableAttempt).attempts = 1 := rfl
    have htransient : unavailableAttempt.Transient := Or.inr (Or.inr (by decide))
    have hmore := (hrule 0 (by omega)).mpr ⟨htransient, by decide⟩
    omega
  · intro h
    obtain ⟨-, hrule, -⟩ := h
    have hfour : (runAttempts "https://a.test/" fun _ => refusedAttempt).attempts = 4 := rfl
    have hextra := (hrule 2 (by omega)).mp (by omega)
    exact absurd hextra.2 (by decide)

end DomainStatus.Process
