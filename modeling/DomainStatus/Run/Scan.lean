import Mathlib.Algebra.Ring.Int.Defs
import Mathlib.Data.Finset.Card
import DomainStatus.Lib.Text
import DomainStatus.Run.InFlight

/-!
# A scan run

The scan loop, the tasks and the drain of `src/run/mod.rs`, `src/run/task.rs` and
`src/run/finalize.rs` as a step function. A step is the code of the main loop or of one task between
two awaits, or the outcome of an await: a database write, a panic, an abort. Any order of enabled
events is a run, so the runs are the interleavings of the loop, the tasks and the drain.

The counters of the program are kept as the multisets of the URLs that they count, and so are the
rows that it writes. The program itself only has the sizes of the counters.
-/

namespace DomainStatus.Scan

open InFlight

/-! ## Tasks -/

/-- Where a task is. The Boolean of `committed` says that its row is new for the run, that of
`cancelling` and `failing` that the write of its failure row has been answered, and that of `broken`
that the task had counted its URL before it panicked or was aborted. -/
inductive TaskPhase where
  /-- Spawned, with its permit, but not polled yet: the guard is not registered. -/
  | spawned
  /-- Waiting for the rate limits. -/
  | waiting
  /-- Inside `process_url`, before the commit of its row. -/
  | processing
  /-- Inside `process_url`, after the commit of its row. -/
  | committed (inserted : Bool)
  /-- `handle_cancelled`: the row is written first, then the URL is counted. -/
  | cancelling (answered : Bool)
  /-- `handle_failure` and `handle_timeout`: the URL is counted, then the row is written. -/
  | failing (answered : Bool)
  /-- The URL is counted, and only synchronous code is left. -/
  | counted
  | finished
  | broken (counted : Bool)
  | reaped
  deriving DecidableEq

/-- What happens to a task. -/
inductive TaskEvent where
  /-- The first poll registers the guard. -/
  | poll
  | admitted
  | cancelSeen
  | commit
  /-- `process_url` returns `Skipped`. -/
  | finishSkipped
  /-- `process_url` returns `Inserted` or `Updated`. -/
  | finishSuccess
  | fail
  | timeout
  | recordRow
  | recordFails
  | resume
  | return
  | panic
  | abort
  /-- `join_next` takes the task out of the set. -/
  | reap
  deriving DecidableEq

/-- What a step of a task does outside the task. -/
inductive Effect where
  | none
  | successful
  | failed
  | skipped
  | failureRow
  | statusRow (inserted : Bool)
  deriving DecidableEq

namespace TaskPhase

/-- The guard of the task is in place. -/
def registered : TaskPhase → Bool
  | spawned | finished | broken _ | reaped => false
  | _ => true

/-- The task has not returned, panicked or been aborted. -/
def running : TaskPhase → Bool
  | finished | broken _ | reaped => false
  | _ => true

/-- The task has counted its URL. -/
def hasCounted : TaskPhase → Bool
  | failing _ | counted | finished => true
  | broken early => early
  | _ => false

end TaskPhase

/-- One step of `process_url_task`. `cancelled` is the state of the token, and `isNewDomain` says
that the run has no row for the task's domain yet. -/
def taskProgress (cancelled isNewDomain : Bool) :
    TaskPhase → TaskEvent → Option (TaskPhase × Effect)
  | .spawned, .poll => some (if cancelled then .cancelling false else .waiting, .none)
  | .waiting, .admitted => if cancelled then none else some (.processing, .none)
  | .waiting, .cancelSeen => if cancelled then some (.cancelling false, .none) else none
  | .processing, .cancelSeen => if cancelled then some (.cancelling false, .none) else none
  | .committed _, .cancelSeen => if cancelled then some (.cancelling false, .none) else none
  | .processing, .commit => some (.committed isNewDomain, .statusRow isNewDomain)
  | .processing, .finishSkipped => some (.counted, .skipped)
  | .committed inserted, .finishSuccess =>
      some (.counted, if inserted then .successful else .skipped)
  | .processing, .fail => some (.failing false, .failed)
  | .processing, .timeout => some (.failing false, .failed)
  | .committed _, .timeout => some (.failing false, .failed)
  | .cancelling false, .recordRow => some (.cancelling true, .failureRow)
  | .failing false, .recordRow => some (.failing true, .failureRow)
  | .cancelling false, .recordFails => some (.cancelling true, .none)
  | .failing false, .recordFails => some (.failing true, .none)
  | .cancelling true, .resume => some (.counted, .failed)
  | .failing true, .resume => some (.counted, .none)
  | .counted, .return => some (.finished, .none)
  | _, _ => none

/-- One step of a task, or the end of one. `reaping` says that the main loop calls `join_next`, and
`aborting` that `abort_all` has been called. -/
def taskStep (cancelled isNewDomain reaping aborting : Bool) (phase : TaskPhase) :
    TaskEvent → Option (TaskPhase × Effect)
  -- The progress callback is called after counting, so a counted task can still panic.
  | .panic => if phase.running then some (.broken phase.hasCounted, .none) else none
  -- There is no await behind the counting of `handle_success` and `handle_cancelled`.
  | .abort =>
      if aborting && phase.running && phase != .counted then
        some (.broken phase.hasCounted, .none)
      else none
  | .reap =>
      match phase with
      | .finished => if reaping then some (.reaped, .none) else none
      -- A join error counts the URL, whether or not the task had counted it.
      | .broken _ => if reaping then some (.reaped, .failed) else none
      | _ => none
  | event => taskProgress cancelled isNewDomain phase event

/-! ## The run -/

/-- The counts that `persist_run_counts` writes. -/
structure FinalRunCounts where
  totalUrls : ℤ
  successfulUrls : ℤ
  failedUrls : ℤ
  skippedUrls : ℤ
  deriving DecidableEq

/-- Where `run_scan` is. -/
inductive MainPhase where
  /-- The loop that reaps finished tasks before the next line. -/
  | reaping
  /-- The `select!` of the next line and the cancel token. -/
  | selecting
  /-- The `select!` of a permit for the URL and the cancel token. -/
  | permit (url : String)
  /-- `drain_join_set` before its deadline. -/
  | draining
  /-- `drain_join_set` writes rows for its snapshot. -/
  | recording (abandoned left : Finset String)
  | drained
  /-- `persist_run_counts` after the loads of the counters, and after the first count of rows. -/
  | persisting (totalUrls skippedUrls : ℤ) (successfulUrls : Option ℤ)
  | finalized (counts : FinalRunCounts)
  /-- Too many consecutive read errors: the run returns without a drain. -/
  | readFailed
  deriving DecidableEq

/-- What happens in a run. -/
inductive Event where
  | task (number : ℕ) (event : TaskEvent)
  | interrupt
  | nothingReady
  | readLine
  | seeCancel
  | acquirePermit
  | joinedAll
  | deadline
  | recordAbandoned (url : String)
  | recordAbandonedFails (url : String)
  | abandonDone
  | loadCounters
  | countStatusRows
  | countFailureRows

/-- A task with its URL. -/
structure Task where
  url : String
  phase : TaskPhase
  deriving DecidableEq

/-- The state of a run. A line of the input is `none` if reading it fails. -/
structure State where
  input : List (Option String)
  consecutiveErrors : ℕ
  main : MainPhase
  cancelled : Bool
  tasks : List Task
  registry : Registry
  attempted : Multiset String
  successful : Multiset String
  failed : Multiset String
  skipped : Multiset String
  /-- The domains that the run has a row for, the key of the table of results. -/
  statusRows : Finset String
  /-- The URLs whose commit added a row. -/
  insertedUrls : Multiset String
  failureRows : Multiset String

/-- What a run depends on: the normalisation and the check of a line, the domain that a URL's row
is stored under, and the number of permits. -/
structure Setup where
  validateAndNormalizeUrl : String → Option String
  isSafe : String → Bool
  domainOf : String → String
  maxConcurrency : ℕ

/-- The most read errors in a row before the loop ends. -/
def maxConsecutiveErrors : ℕ := 10

/-- `n as i32`. -/
def asI32 (n : ℕ) : ℤ := (n : ℤ).bmod (2 ^ 32)

/-- `saturating_i32_count`. -/
def saturatingI32Count (n : ℕ) : ℤ := min (n : ℤ) (2 ^ 31 - 1)

namespace MainPhase

/-- The main loop is at one of its calls of `join_next`. -/
def joins : MainPhase → Bool
  | reaping | draining => true
  | _ => false

/-- The drain has taken its snapshot or found no task left. -/
def closed : MainPhase → Bool
  | recording _ _ | drained | persisting _ _ _ | finalized _ => true
  | _ => false

/-- `drain_join_set` has returned. -/
def returned : MainPhase → Bool
  | drained | persisting _ _ _ | finalized _ => true
  | _ => false

end MainPhase

namespace State

/-- A scan that has read nothing yet. -/
def init (input : List (Option String)) : State where
  input
  consecutiveErrors := 0
  main := .reaping
  cancelled := false
  tasks := []
  registry := ∅
  attempted := 0
  successful := 0
  failed := 0
  skipped := 0
  statusRows := ∅
  insertedUrls := 0
  failureRows := 0

/-- The tasks that hold a permit. -/
def running (state : State) : ℕ :=
  state.tasks.countP fun task => task.phase.running

/-- `skip_url`. -/
def skipUrl (state : State) (url : String) : State :=
  { state with attempted := url ::ₘ state.attempted, skipped := url ::ₘ state.skipped }

/-- The counters and rows after an effect of the task of `url`. -/
def apply (domainOf : String → String) (state : State) (url : String) : Effect → State
  | .none => state
  | .successful => { state with successful := url ::ₘ state.successful }
  | .failed => { state with failed := url ::ₘ state.failed }
  | .skipped => { state with skipped := url ::ₘ state.skipped }
  | .failureRow => { state with failureRows := url ::ₘ state.failureRows }
  | .statusRow true =>
      { state with
        statusRows := insert (domainOf url) state.statusRows
        insertedUrls := url ::ₘ state.insertedUrls }
  | .statusRow false => state

/-- The registry after a step of a task: the guard is registered with the first poll and dropped
when the task ends. -/
def guardStep (registry : Registry) (url : String) (before after : TaskPhase) : Registry :=
  match before.registered, after.registered with
  | false, true => register registry url
  | true, false => unregister registry url
  | _, _ => registry

end State

/-- The next line of the input, up to the wait for a permit. -/
def readLine (setup : Setup) (state : State) : State :=
  match state.input with
  | [] => { state with main := .draining }
  | none :: rest =>
      let state := { state with input := rest, consecutiveErrors := state.consecutiveErrors + 1 }
      if maxConsecutiveErrors < state.consecutiveErrors then { state with main := .readFailed }
      else { state with main := .reaping }
  | some line :: rest =>
      let state := { state with input := rest, consecutiveErrors := 0, main := .reaping }
      let trimmed := Text.trim line
      if trimmed = "" || Text.startsWith trimmed "#" then state
      else
        match setup.validateAndNormalizeUrl trimmed with
        | none => state.skipUrl trimmed
        | some url => if setup.isSafe url then { state with main := .permit url }
            else state.skipUrl url

/-- One step of the run. The semaphore is never closed, so a permit is granted as soon as fewer
tasks than permits are running. -/
def step (setup : Setup) (state : State) : Event → Option State
  | .task number event =>
      match state.tasks[number]? with
      | none => none
      | some task =>
          let isNewDomain := decide (setup.domainOf task.url ∉ state.statusRows)
          match taskStep state.cancelled isNewDomain state.main.joins state.main.returned
              task.phase event with
          | none => none
          | some (phase, effect) =>
              let state := { state with
                tasks := state.tasks.set number { task with phase }
                registry := State.guardStep state.registry task.url task.phase phase }
              some (state.apply setup.domainOf task.url effect)
  | .interrupt => some { state with cancelled := true }
  | .nothingReady =>
      match state.main with
      | .reaping => some { state with main := .selecting }
      | _ => none
  | .readLine =>
      match state.main with
      | .selecting => some (readLine setup state)
      | _ => none
  | .seeCancel =>
      match state.main with
      | .selecting | .permit _ =>
          if state.cancelled then some { state with main := .draining } else none
      | _ => none
  | .acquirePermit =>
      match state.main with
      | .permit url =>
          if state.running < setup.maxConcurrency then
            some { state with
              main := .reaping
              attempted := url ::ₘ state.attempted
              tasks := state.tasks ++ [{ url, phase := .spawned }] }
          else none
      | _ => none
  | .joinedAll =>
      match state.main with
      | .draining =>
          if state.tasks.all fun task => task.phase = .reaped then
            some { state with main := .drained }
          else none
      | _ => none
  | .deadline =>
      match state.main with
      | .draining =>
          if state.registry = ∅ then some { state with main := .drained, cancelled := true }
          else some { state with main := .recording state.registry state.registry }
      | _ => none
  | .recordAbandoned url =>
      match state.main with
      | .recording abandoned left =>
          if url ∈ left then
            some { state with
              main := .recording abandoned (left.erase url)
              failureRows := url ::ₘ state.failureRows }
          else none
      | _ => none
  | .recordAbandonedFails url =>
      match state.main with
      | .recording abandoned left =>
          if url ∈ left then some { state with main := .recording abandoned (left.erase url) }
          else none
      | _ => none
  | .abandonDone =>
      match state.main with
      | .recording abandoned left =>
          if left = ∅ then
            some { state with
              main := .drained
              cancelled := true
              failed := abandoned.val + state.failed }
          else none
      | _ => none
  | .loadCounters =>
      match state.main with
      | .drained =>
          some { state with
            main := .persisting (asI32 state.attempted.card) (asI32 state.skipped.card) none }
      | _ => none
  | .countStatusRows =>
      match state.main with
      | .persisting total skipped none =>
          some { state with
            main := .persisting total skipped (some (saturatingI32Count state.statusRows.card)) }
      | _ => none
  | .countFailureRows =>
      match state.main with
      | .persisting total skipped (some successful) =>
          some { state with
            main := .finalized
              { totalUrls := total
                successfulUrls := successful
                failedUrls := saturatingI32Count state.failureRows.card
                skippedUrls := skipped } }
      | _ => none

end DomainStatus.Scan
