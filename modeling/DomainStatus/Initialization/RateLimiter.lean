import Mathlib.Data.Rat.Floor
import Mathlib.Tactic.Linarith
import Mathlib.Tactic.NormNum
import Mathlib.Tactic.Ring
import DomainStatus.Lib.Trace
import DomainStatus.Lib.Usize

/-!
# The URL-admission token bucket

`computeRefillPermits` and the background refill task of `init_rate_limiter`, after
`src/initialization/rate_limiter.rs`, with `f64` read as exact rationals. The bucket is a machine
whose steps are the passing of time, the two halves of a refill tick (reading
`available_permits`, then calling `add_permits`) and the acquires, which may fall between the two
halves. `token_bucket_sound` bounds the permits and the acquires of every run and says that no
fraction of a token is lost while no tick restores all the permits that it saw missing.
-/

namespace DomainStatus.RateLimiter

open Trace Usize

/-- The cast `x as usize` of a float: truncation, saturating at both ends of the range. -/
def castUsize (x : ℚ) : ℕ :=
  min ⌊x⌋.toNat usizeMax

/-- The permits to add to the semaphore and the new carried fraction. A full bucket, and a refill
that restores every missing permit, drop the fraction. -/
def computeRefillPermits (currentRps : ℕ) (elapsed : ℚ) (available capacity : ℕ)
    (fractionalPermits : ℚ) : ℕ × ℚ :=
  if currentRps = 0 ∨ capacity ≤ available then (0, 0)
  else
    let permitsToAddF64 := currentRps * elapsed + fractionalPermits
    let wholePermits := castUsize ⌊permitsToAddF64⌋
    let permitsToRestore := capacity - available
    let permitsToAdd := min wholePermits permitsToRestore
    let newFractional :=
      if permitsToAdd = permitsToRestore then 0 else permitsToAddF64 - wholePermits
    (permitsToAdd, newFractional)

/-- The limiter and its refill task. `permits` is the semaphore's count of available permits,
`lastTime` is `none` until the spawned task is first polled, and `pending` holds the permits that
a tick has computed and not yet added. `added` and `acquired` count the permits that
`add_permits` has added and the acquires that have succeeded. -/
structure State where
  now : ℚ
  permits : ℕ
  lastTime : Option ℚ
  fractionalPermits : ℚ
  pending : Option ℕ
  added : ℕ
  acquired : ℕ
  deriving DecidableEq

/-- What can happen next: time passes, the refill task starts, a tick reads the semaphore, the
tick adds its permits, or a waiter acquires a permit. -/
inductive Event where
  | advance (interval : ℚ≥0)
  | start
  | tickRead
  | tickAdd
  | acquire

/-- The state `init_rate_limiter` leaves: a full bucket and a task that has not been polled. -/
def init (burst : UInt64) : State :=
  { now := 0, permits := burst.toNat, lastTime := none, fractionalPermits := 0,
    pending := none, added := 0, acquired := 0 }

/-- One step. The semaphore is never closed, so an acquire succeeds exactly when a permit is
available, and it consumes the permit for good. -/
def step (rps : ℕ) (burst : UInt64) (state : State) : Event → Option State
  | .advance interval => some { state with now := state.now + interval }
  | .start =>
      match state.lastTime with
      | none => some { state with lastTime := some state.now }
      | some _ => none
  | .tickRead =>
      match state.lastTime, state.pending with
      | some lastTime, none =>
          let (permitsToAdd, newFractional) := computeRefillPermits rps (state.now - lastTime)
            state.permits burst.toNat state.fractionalPermits
          some { state with
            fractionalPermits := newFractional
            lastTime := some state.now
            pending := some permitsToAdd }
      | _, _ => none
  | .tickAdd =>
      match state.pending with
      | some permitsToAdd =>
          some { state with
            permits := state.permits + permitsToAdd
            added := state.added + permitsToAdd
            pending := none }
      | none => none
  | .acquire =>
      if 0 < state.permits then
        some { state with permits := state.permits - 1, acquired := state.acquired + 1 }
      else none

/-- The permits granted so far, those that a tick is about to add included. -/
def State.granted (state : State) : ℕ :=
  state.added + state.pending.getD 0

/-! ## One refill -/

variable {rps : ℕ} {elapsed fraction : ℚ} {available capacity : ℕ}

/-- The cast rounds down. -/
theorem castUsize_floor_le {x : ℚ} (hx : 0 ≤ x) : (castUsize ⌊x⌋ : ℚ) ≤ x := by
  have hfloor : 0 ≤ ⌊x⌋ := Int.floor_nonneg.mpr hx
  have hcast : castUsize ⌊x⌋ ≤ ⌊x⌋.toNat := by simp [castUsize]
  calc (castUsize ⌊x⌋ : ℚ) ≤ (⌊x⌋.toNat : ℚ) := by exact_mod_cast hcast
    _ = (⌊x⌋ : ℚ) := by exact_mod_cast Int.toNat_of_nonneg hfloor
    _ ≤ x := Int.floor_le x

/-- A refill never adds more permits than are missing. -/
theorem refill_le_missing :
    (computeRefillPermits rps elapsed available capacity fraction).1 ≤ capacity - available := by
  unfold computeRefillPermits
  split
  · exact Nat.zero_le _
  · exact Nat.min_le_right _ _

/-- What a refill adds and carries is at most what was earned and carried before. -/
theorem refill_le_earned (helapsed : 0 ≤ elapsed) (hfraction : 0 ≤ fraction) :
    ((computeRefillPermits rps elapsed available capacity fraction).1 : ℚ) +
      (computeRefillPermits rps elapsed available capacity fraction).2 ≤
        rps * elapsed + fraction := by
  have hearned : 0 ≤ rps * elapsed + fraction := by positivity
  unfold computeRefillPermits
  split
  · simpa using hearned
  · have hfloor := castUsize_floor_le hearned
    simp only
    split
    case isTrue =>
      have hmin : ((min (castUsize ⌊rps * elapsed + fraction⌋) (capacity - available) : ℕ) : ℚ) ≤
          (castUsize ⌊rps * elapsed + fraction⌋ : ℚ) := by
        exact_mod_cast Nat.min_le_left _ _
      linarith
    case isFalse hnot =>
      have hmin : min (castUsize ⌊rps * elapsed + fraction⌋) (capacity - available) =
          castUsize ⌊rps * elapsed + fraction⌋ := by omega
      rw [hmin]
      linarith

/-- The fraction that is carried on is not negative. -/
theorem refill_fraction_nonneg (helapsed : 0 ≤ elapsed) (hfraction : 0 ≤ fraction) :
    0 ≤ (computeRefillPermits rps elapsed available capacity fraction).2 := by
  have hearned : 0 ≤ rps * elapsed + fraction := by positivity
  unfold computeRefillPermits
  split
  · exact le_rfl
  · simp only
    split
    · exact le_rfl
    · exact sub_nonneg.mpr (castUsize_floor_le hearned)

/-- A refill that neither sees a full bucket nor restores every missing permit loses nothing. -/
theorem refill_eq_earned (hrps : 0 < rps) (hseen : available < capacity)
    (hpart : (computeRefillPermits rps elapsed available capacity fraction).1 ≠
      capacity - available) :
    ((computeRefillPermits rps elapsed available capacity fraction).1 : ℚ) +
      (computeRefillPermits rps elapsed available capacity fraction).2 =
        rps * elapsed + fraction := by
  have hguard : ¬ (rps = 0 ∨ capacity ≤ available) := by omega
  unfold computeRefillPermits at hpart ⊢
  simp only [hguard, if_false] at hpart ⊢
  rw [if_neg hpart]
  have hmin : min (castUsize ⌊rps * elapsed + fraction⌋) (capacity - available) =
      castUsize ⌊rps * elapsed + fraction⌋ := by omega
  rw [hmin]
  ring

/-! ## Whole runs -/

variable {burst : UInt64}

/-- What holds in every reachable state: the bucket never overflows, even after the pending add,
every permit is accounted for, and the permits granted so far are covered by the time that the
refill task has seen. -/
structure Invariant (rps : ℕ) (burst : UInt64) (state : State) : Prop where
  within : state.permits + state.pending.getD 0 ≤ burst.toNat
  balance : state.permits + state.acquired = burst.toNat + state.added
  fraction_nonneg : 0 ≤ state.fractionalPermits
  now_nonneg : 0 ≤ state.now
  last_le_now : ∀ lastTime ∈ state.lastTime, lastTime ≤ state.now
  earned : (state.granted : ℚ) + state.fractionalPermits ≤ rps * state.lastTime.getD 0

/-- The invariant holds at the start. -/
theorem invariant_init (rps : ℕ) (burst : UInt64) : Invariant rps burst (init burst) := by
  constructor <;> simp [init, State.granted]

/-- One step keeps the invariant. -/
theorem invariant_step (state : State) (event : Event) (next : State)
    (hinv : Invariant rps burst state) (hstep : step rps burst state event = some next) :
    Invariant rps burst next := by
  obtain ⟨hwithin, hbalance, hfraction, hnow, hlast, hearned⟩ := hinv
  cases event with
  | advance interval =>
      simp only [step, Option.some.injEq] at hstep
      subst hstep
      have hinterval : (0 : ℚ) ≤ interval := interval.2
      exact ⟨hwithin, hbalance, hfraction, add_nonneg hnow hinterval,
        fun lastTime h => le_add_of_le_of_nonneg (hlast lastTime h) hinterval, hearned⟩
  | start =>
      simp only [step] at hstep
      cases hnone : state.lastTime with
      | none =>
          rw [hnone] at hstep
          dsimp only at hstep
          cases hstep
          refine ⟨hwithin, hbalance, hfraction, hnow, by simp, ?_⟩
          -- Before the first tick time counts from zero, so the start only adds to what was earned.
          have hzero : (rps : ℚ) * state.lastTime.getD 0 ≤ rps * state.now := by
            simpa [hnone] using by positivity
          exact hearned.trans hzero
      | some _ =>
          rw [hnone] at hstep
          cases hstep
  | tickRead =>
      simp only [step] at hstep
      split at hstep
      next lastTime htime hpending =>
        simp only [Option.some.injEq] at hstep
        subst hstep
        have helapsed : 0 ≤ state.now - lastTime := sub_nonneg.mpr (hlast lastTime htime)
        -- The refill is bounded by the room in the bucket and by the time since the last tick.
        have hmissing : (computeRefillPermits rps (state.now - lastTime) state.permits burst.toNat
            state.fractionalPermits).1 ≤ burst.toNat - state.permits := refill_le_missing
        have hle := @refill_le_earned rps _ _ state.permits burst.toNat helapsed hfraction
        simp only [hpending, Option.getD_none] at hwithin
        simp only [State.granted, hpending, htime, Option.getD_none, Option.getD_some,
          Nat.add_zero] at hearned
        refine ⟨?_, hbalance, refill_fraction_nonneg helapsed hfraction, hnow, by simp, ?_⟩
        · simp only [Option.getD_some]
          omega
        · simp only [State.granted, Option.getD_some]
          push_cast
          linarith
      · cases hstep
  | tickAdd =>
      simp only [step] at hstep
      cases hpending : state.pending with
      | some permitsToAdd =>
          rw [hpending] at hstep
          dsimp only at hstep
          cases hstep
          simp only [hpending, Option.getD_some] at hwithin
          refine ⟨by simpa using hwithin, by simp only; omega, hfraction, hnow, hlast, ?_⟩
          simpa [State.granted, hpending] using hearned
      | none =>
          rw [hpending] at hstep
          cases hstep
  | acquire =>
      simp only [step] at hstep
      split at hstep
      · cases hstep
        exact ⟨by simp only; omega, by simp only; omega, hfraction, hnow, hlast, hearned⟩
      · cases hstep

/-- The tick does not see a full bucket and does not restore every permit that it sees missing.
Every other event qualifies. -/
def KeepsFraction (rps : ℕ) (burst : UInt64) (state : State) : Event → Prop
  | .tickRead => ∀ lastTime ∈ state.lastTime,
      state.permits < burst.toNat ∧
        (computeRefillPermits rps (state.now - lastTime) state.permits burst.toNat
          state.fractionalPermits).1 ≠ burst.toNat - state.permits
  | _ => True

/-- Since the state `origin`, what was granted and is carried equals what was earned. -/
def Conserved (rps : ℕ) (origin : State) (since : ℚ) (state : State) : Prop :=
  ∃ lastTime, state.lastTime = some lastTime ∧
    (state.granted : ℚ) + state.fractionalPermits =
      origin.granted + rps * (lastTime - since) + origin.fractionalPermits

/-- One step that keeps the fraction keeps the account of the time. -/
theorem conserved_step (hrps : 0 < rps) {origin : State} {since : ℚ} (state : State)
    (event : Event) (next : State) (hinv : Conserved rps origin since state)
    (hkeeps : KeepsFraction rps burst state event)
    (hstep : step rps burst state event = some next) : Conserved rps origin since next := by
  obtain ⟨lastTime, htime, hequal⟩ := hinv
  cases event with
  | advance interval =>
      simp only [step, Option.some.injEq] at hstep
      subst hstep
      exact ⟨lastTime, htime, hequal⟩
  | start => simp [step, htime] at hstep
  | tickRead =>
      -- Only here can a fraction get lost, when the bucket is or becomes full.
      obtain ⟨hseen, hpart⟩ := hkeeps lastTime htime
      have hexact := refill_eq_earned hrps hseen hpart
      simp only [step, htime] at hstep
      split at hstep
      next heq hpending =>
        cases heq
        simp only [Option.some.injEq] at hstep
        subst hstep
        refine ⟨state.now, rfl, ?_⟩
        simp only [State.granted, hpending, Option.getD_none, Nat.add_zero] at hequal
        simp only [State.granted, Option.getD_some]
        push_cast at hequal ⊢
        linarith
      · cases hstep
  | tickAdd =>
      simp only [step] at hstep
      cases hpending : state.pending with
      | some permitsToAdd =>
          rw [hpending] at hstep
          dsimp only at hstep
          cases hstep
          exact ⟨lastTime, htime, by simpa [State.granted, hpending] using hequal⟩
      | none =>
          rw [hpending] at hstep
          cases hstep
  | acquire =>
      simp only [step] at hstep
      split at hstep
      · cases hstep
        exact ⟨lastTime, htime, hequal⟩
      · cases hstep

/-- In every run the available permits never exceed the burst, and the acquires up to the current
time are at most the burst plus the rate times the time. Over any further stretch whose ticks
neither see the bucket full nor refill it to full, the permits granted plus the carried fraction
are the rate times the time between the first and the last tick plus the initial fraction. -/
theorem token_bucket_sound (hrps : 0 < rps) {events : List Event} {state : State}
    (hrun : runTrace (step rps burst) (init burst) events = some state) :
    state.permits ≤ burst.toNat ∧
      (state.acquired : ℚ) ≤ burst.toNat + rps * state.now ∧
      ∀ since ∈ state.lastTime, ∀ stretch final,
        Along (step rps burst) (KeepsFraction rps burst) state stretch →
        runTrace (step rps burst) state stretch = some final →
        ∃ lastTime ∈ final.lastTime,
          ((final.granted : ℚ) - state.granted) + final.fractionalPermits =
            rps * (lastTime - since) + state.fractionalPermits := by
  have hinv : Invariant rps burst state :=
    invariant_run invariant_step (invariant_init rps burst) hrun
  refine ⟨by have := hinv.within; omega, ?_, ?_⟩
  · have hacquired : (state.acquired : ℚ) ≤ burst.toNat + state.added := by
      exact_mod_cast (by have := hinv.balance; omega : state.acquired ≤ burst.toNat + state.added)
    have hadded : (state.added : ℚ) ≤ state.granted := by
      exact_mod_cast Nat.le_add_right state.added _
    have hseen : (rps : ℚ) * state.lastTime.getD 0 ≤ rps * state.now := by
      refine mul_le_mul_of_nonneg_left ?_ (Nat.cast_nonneg rps)
      cases htime : state.lastTime with
      | none => exact hinv.now_nonneg
      | some lastTime => exact hinv.last_le_now lastTime htime
    linarith [hinv.earned, hinv.fraction_nonneg]
  · intro since htime stretch final hkeeps hstretch
    have hstart : Conserved rps state since state := ⟨since, htime, by ring⟩
    obtain ⟨lastTime, hlast, hequal⟩ :=
      invariant_along (conserved_step hrps) hstart hkeeps hstretch
    exact ⟨lastTime, hlast, by linarith⟩

/-- A bucket of three permits at ten tokens a second: two acquires, a tick that earns half a
token, and a stretch with a tick that earns one and a half and carries the half on. -/
theorem token_bucket_sound_ten_per_second :
    ∃ state final : State,
      runTrace (step 10 3) (init 3)
          [.acquire, .acquire, .start, .advance (1 / 20), .tickRead, .tickAdd] = some state ∧
        runTrace (step 10 3) state [.advance (1 / 10), .tickRead, .tickAdd] = some final ∧
        state.permits ≤ 3 ∧ final.added = 1 ∧
        ∃ lastTime ∈ final.lastTime,
          ((final.granted : ℚ) - state.granted) + final.fractionalPermits =
            (10 : ℕ) * (lastTime - 1 / 20) + state.fractionalPermits := by
  refine ⟨⟨1 / 20, 1, some (1 / 20), 1 / 2, none, 0, 2⟩,
    ⟨3 / 20, 2, some (3 / 20), 1 / 2, none, 1, 2⟩, by decide +kernel, by decide +kernel, ?_⟩
  have hsound := @token_bucket_sound 10 3 (by decide)
    [.acquire, .acquire, .start, .advance (1 / 20), .tickRead, .tickAdd]
    ⟨1 / 20, 1, some (1 / 20), 1 / 2, none, 0, 2⟩ (by decide +kernel)
  refine ⟨hsound.1, rfl, hsound.2.2 (1 / 20) rfl
    [.advance (1 / 10), .tickRead, .tickAdd] _ ?_ (by decide +kernel)⟩
  refine ⟨trivial, fun next hnext => ⟨?_, fun _ _ => ⟨trivial, fun _ _ => trivial⟩⟩⟩
  cases hnext
  rintro lastTime ⟨⟩
  decide +kernel

/-- The bucket is not full where a tick looks at it, and the permits of the tick do not fill it. -/
def NeverFull (burst : UInt64) (state : State) : Event → Prop
  | .tickRead => state.permits < burst.toNat
  | .tickAdd => state.permits + state.pending.getD 0 < burst.toNat
  | _ => True

instance (burst : UInt64) (state : State) (event : Event) :
    Decidable (NeverFull burst state event) := by
  cases event <;> unfold NeverFull <;> infer_instance

/-- A permit that is taken between the two halves of a tick keeps the bucket from being full, and
the half token that the tick earned is lost all the same: it compares with what it has read. -/
theorem fraction_lost_below_full :
    ∃ state final : State,
      runTrace (step 10 3) (init 3) [.acquire, .acquire, .start] = some state ∧
        Along (step 10 3) (NeverFull 3) state
          [.advance (1 / 4), .tickRead, .acquire, .tickAdd] ∧
        runTrace (step 10 3) state [.advance (1 / 4), .tickRead, .acquire, .tickAdd] =
          some final ∧
        final.permits < 3 ∧ final.pending = none ∧
        ∃ since lastTime, state.lastTime = some since ∧ final.lastTime = some lastTime ∧
          ((final.added : ℚ) - state.added) + final.fractionalPermits ≠
            (10 : ℕ) * (lastTime - since) + state.fractionalPermits := by
  refine ⟨⟨0, 1, some 0, 0, none, 0, 2⟩, ⟨1 / 4, 2, some (1 / 4), 0, none, 2, 3⟩,
    by decide +kernel, by decide +kernel, by decide +kernel, by decide, rfl, 0, 1 / 4, rfl, rfl, ?_⟩
  norm_num

end DomainStatus.RateLimiter
