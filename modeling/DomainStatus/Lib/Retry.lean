import Mathlib.Data.List.Basic
import Mathlib.Data.List.Induction
import Mathlib.Logic.Function.Basic
import Mathlib.Tactic.Common

/-!
# Retries of atomic operations

An operation that may fail is attempted again while its errors are of a kind that may pass, a fixed
number of times. An operation that fails changes nothing. Read `run_invariant` first: whatever the
order in which many callers attempt their operations, the state is that of one successful operation
for each caller that is done, and of none for the others.
-/

namespace Retry

variable {ε α : Type}

/-- How far a caller is. -/
inductive Progress (ε α : Type) where
  | pending (attempt : ℕ)
  | done (result : α)
  | failed (error : ε)

/-- The result of a caller that is done. -/
def Progress.result : Progress ε α → Option α
  | .done result => some result
  | _ => none

/-! ## The loop -/

section Loop

variable (retriable : ε → Bool) (maxRetries : ℕ) (delay : ℕ → ℕ) (exhausted : ε)

/-- The loop over the numbers of the attempts, with what each of them returns, and the delays
between them. -/
def loop (results : ℕ → Except ε α) : List ℕ → Except ε α × List ℕ
  | [] => (.error exhausted, [])
  | attempt :: rest =>
      match results attempt with
      | .ok result => (.ok result, [])
      | .error error =>
          if !retriable error || maxRetries ≤ attempt then (.error error, [])
          else ((loop results rest).1, delay attempt :: (loop results rest).2)

/-- One iteration of the loop. -/
def next (attempt : ℕ) : Except ε α → Progress ε α
  | .ok result => .done result
  | .error error =>
      if !retriable error || maxRetries ≤ attempt then .failed error else .pending (attempt + 1)

variable {maxRetries} (results : ℕ → Except ε α)

/-- The loop returns what its last attempt returns. The ones before fail with an error that may
pass, and the last one only fails with such an error when no attempt is left. -/
theorem loop_range' (start count : ℕ) (h : start + count = maxRetries) :
    ∃ last, start ≤ last ∧ last ≤ maxRetries ∧
      loop retriable maxRetries delay exhausted results (List.range' start (count + 1)) =
        (results last, (List.range' start (last - start)).map delay) ∧
      (∀ attempt, start ≤ attempt → attempt < last →
        ∃ error, results attempt = .error error ∧ retriable error = true) ∧
      ∀ error, results last = .error error → retriable error = false ∨ last = maxRetries := by
  induction count generalizing start with
  | zero =>
      refine ⟨start, Nat.le_refl _, by omega, ?_, by omega, fun _ _ => .inr (by omega)⟩
      rw [Nat.sub_self, List.range'_one, loop]
      cases hresult : results start with
      | ok result => rfl
      | error error =>
          have hlast : maxRetries ≤ start := by omega
          simp [hlast]
  | succ count ih =>
      rw [List.range'_succ, loop]
      cases hresult : results start with
      | ok result =>
          refine ⟨start, Nat.le_refl _, by omega, ?_, by omega, fun error herror => ?_⟩
          · simp [hresult]
          · rw [hresult] at herror
            cases herror
      | error error =>
          cases hretriable : retriable error with
          | false =>
              refine ⟨start, Nat.le_refl _, by omega, ?_, by omega, fun other hother => .inl ?_⟩
              · simp [hresult, hretriable]
              · rw [hresult, Except.error.injEq] at hother
                rw [← hother, hretriable]
          | true =>
              have hleft : ¬ maxRetries ≤ start := by omega
              obtain ⟨last, hstart, hmax, hloop, hfailed, hlast⟩ := ih (start + 1) (by omega)
              refine ⟨last, by omega, hmax, ?_, fun attempt hattempt hless => ?_, hlast⟩
              · have hdelays : List.range' start (last - start) =
                    start :: List.range' (start + 1) (last - (start + 1)) := by
                  have hsub : last - start = last - (start + 1) + 1 := by omega
                  rw [hsub, List.range'_succ]
                rw [hdelays, hloop]
                simp [hretriable, hleft]
              · rcases Nat.eq_or_lt_of_le hattempt with rfl | hlater
                · exact ⟨error, hresult, hretriable⟩
                · exact hfailed attempt hlater hless

/-- The loop ends with some attempt. All before it failed in a way that is worth a retry. -/
theorem loop_spec (maxRetries : ℕ) : ∃ last ≤ maxRetries,
    loop retriable maxRetries delay exhausted results (List.range (maxRetries + 1)) =
      (results last, (List.range last).map delay) ∧
    (∀ attempt < last, ∃ error, results attempt = .error error ∧ retriable error = true) ∧
    ∀ error, results last = .error error → retriable error = false ∨ last = maxRetries := by
  obtain ⟨last, -, hmax, hloop, hfailed, hlast⟩ :=
    loop_range' retriable delay exhausted results 0 maxRetries (Nat.zero_add _)
  rw [Nat.sub_zero, ← List.range_eq_range', ← List.range_eq_range'] at hloop
  exact ⟨last, hmax, hloop, fun attempt hless => hfailed attempt (Nat.zero_le _) hless, hlast⟩

end Loop

/-! ## Many callers -/

section Callers

variable {ι σ φ : Type} [DecidableEq ι] (retriable : ε → Bool) (maxRetries : ℕ)
  (op : ι → φ → σ → Except ε (α × σ))

/-- The state that callers share, and how far each of them is. -/
structure System (ι σ ε α : Type) where
  state : σ
  progress : ι → Progress ε α := fun _ => .pending 0

/-- A caller attempts its operation, if it is not done and has attempts left. -/
def System.step (system : System ι σ ε α) (event : ι × φ) : System ι σ ε α :=
  match system.progress event.1 with
  | .pending attempt =>
      match op event.1 event.2 system.state with
      | .ok (result, state) =>
          { state := state
            progress := Function.update system.progress event.1
              (next retriable maxRetries attempt (.ok result)) }
      | .error error =>
          { state := system.state
            progress := Function.update system.progress event.1
              (next retriable maxRetries attempt (.error error)) }
  | _ => system

/-- A run of the callers from a state, one attempt after the other. -/
def System.run (start : σ) (events : List (ι × φ)) : System ι σ ε α :=
  events.foldl (System.step retriable maxRetries op) { state := start }

/-- What the callers that are done have got. -/
def System.results (system : System ι σ ε α) (caller : ι) : Option α :=
  (system.progress caller).result

variable {retriable maxRetries op} {system : System ι σ ε α}

/-- A caller that failed an attempt has no result. -/
theorem result_next_error (attempt : ℕ) (error : ε) :
    (next retriable maxRetries attempt (.error error) : Progress ε α).result = none := by
  show (if !retriable error || maxRetries ≤ attempt then Progress.failed error
    else .pending (attempt + 1) : Progress ε α).result = none
  split <;> rfl

/-- The results change for one caller. -/
theorem results_update {progress : ι → Progress ε α} {caller : ι} {now : Progress ε α} :
    (fun other => (Function.update progress caller now other).result) =
      Function.update (fun other => (progress other).result) caller now.result := by
  funext other
  by_cases h : other = caller
  · subst h
    rw [Function.update_self, Function.update_self]
  · rw [Function.update_of_ne h, Function.update_of_ne h]

/-- What a successful operation of a caller that is not done preserves, every run preserves. -/
theorem run_invariant {I : σ → (ι → Option α) → Prop}
    (hstep : ∀ state results caller input result after, I state results →
      results caller = none → op caller input state = .ok (result, after) →
      I after (Function.update results caller (some result)))
    {start : σ} (hstart : I start fun _ => none) (events : List (ι × φ)) :
    I (System.run retriable maxRetries op start events).state
      (System.run retriable maxRetries op start events).results := by
  induction events using List.reverseRecOn with
  | nil => exact hstart
  | append_singleton events event ih =>
      rw [System.run, List.foldl_concat, ← System.run]
      generalize System.run retriable maxRetries op start events = system at ih ⊢
      unfold System.step
      cases hprogress : system.progress event.1 with
      | pending attempt =>
          have hnone : system.results event.1 = none := by
            rw [System.results, hprogress]
            rfl
          cases hop : op event.1 event.2 system.state with
          | ok finished =>
              obtain ⟨result, state⟩ := finished
              show I state fun other =>
                (Function.update system.progress event.1 (.done result) other).result
              rw [results_update]
              exact hstep _ _ _ _ _ _ ih hnone hop
          | error error =>
              show I system.state fun other => (Function.update system.progress event.1
                (next retriable maxRetries attempt (.error error)) other).result
              rw [results_update, result_next_error, ← hnone]
              exact (Function.update_eq_self event.1 system.results).symm ▸ ih
      | done result => exact ih
      | failed error => exact ih

/-- A step is about one caller. -/
theorem step_progress_ne {event : ι × φ} {caller : ι} (h : event.1 ≠ caller) :
    (system.step retriable maxRetries op event).progress caller = system.progress caller := by
  unfold System.step
  split
  · split <;> exact Function.update_of_ne h.symm _ _
  · rfl

/-- An attempt of a caller that is not done decides how it goes on. -/
theorem step_progress_self {event : ι × φ} {attempt : ℕ}
    (h : system.progress event.1 = .pending attempt) :
    ∃ result, (system.step retriable maxRetries op event).progress event.1 =
      next retriable maxRetries attempt result := by
  simp only [System.step, h]
  split
  · exact ⟨_, Function.update_self _ _ _⟩
  · exact ⟨_, Function.update_self _ _ _⟩

/-- A caller that is done or has failed attempts nothing. -/
theorem step_settled {event : ι × φ} (h : ∀ attempt, system.progress event.1 ≠ .pending attempt) :
    system.step retriable maxRetries op event = system := by
  unfold System.step
  split
  next attempt hattempt => exact absurd hattempt (h attempt)
  · rfl

/-- A caller tries again while it has retries left. -/
theorem next_eq_pending {attempt tries : ℕ} {result : Except ε α}
    (h : next retriable maxRetries attempt result = .pending tries) :
    tries = attempt + 1 ∧ attempt < maxRetries := by
  cases result with
  | ok result => cases h
  | error error =>
      rw [next] at h
      split at h
      case isTrue => cases h
      case isFalse hleft =>
        cases h
        simp only [Bool.or_eq_true, decide_eq_true_eq, not_or] at hleft
        exact ⟨rfl, by omega⟩

/-- A caller that still waits has made as many attempts as its number says, and has some left. -/
theorem run_pending {start : σ} {events : List (ι × φ)} {caller : ι} {tries : ℕ}
    (h : (System.run retriable maxRetries op start events).progress caller = .pending tries) :
    tries = events.countP (·.1 = caller) ∧ tries ≤ maxRetries := by
  induction events using List.reverseRecOn generalizing tries with
  | nil =>
      cases h
      exact ⟨rfl, Nat.zero_le _⟩
  | append_singleton events event ih =>
      rw [System.run, List.foldl_concat, ← System.run] at h
      rw [List.countP_append, List.countP_singleton]
      generalize System.run retriable maxRetries op start events = system at ih h
      by_cases hcaller : event.1 = caller
      · subst hcaller
        cases hprogress : system.progress event.1 with
        | pending attempt =>
            obtain ⟨hcount, -⟩ := ih hprogress
            obtain ⟨result, hresult⟩ := step_progress_self hprogress
            obtain ⟨rfl, hless⟩ := next_eq_pending (hresult.symm.trans h)
            rw [← hcount]
            exact ⟨by simp, hless⟩
        | done result =>
            rw [step_settled (by simp [hprogress]), hprogress] at h
            cases h
        | failed error =>
            rw [step_settled (by simp [hprogress]), hprogress] at h
            cases h
      · rw [step_progress_ne hcaller] at h
        simpa [hcaller] using ih h

/-- After its last attempt a caller is done or has failed. -/
theorem run_settled (start : σ) {events : List (ι × φ)} {caller : ι}
    (h : maxRetries < events.countP (·.1 = caller)) :
    (∃ result, (System.run retriable maxRetries op start events).progress caller = .done result) ∨
      ∃ error, (System.run retriable maxRetries op start events).progress caller =
        .failed error := by
  cases hprogress : (System.run retriable maxRetries op start events).progress caller with
  | pending tries =>
      obtain ⟨hcount, hle⟩ := run_pending hprogress
      omega
  | done result => exact .inl ⟨result, rfl⟩
  | failed error => exact .inr ⟨error, rfl⟩

end Callers

end Retry
