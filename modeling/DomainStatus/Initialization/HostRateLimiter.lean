import DomainStatus.Initialization.RateLimiter
import DomainStatus.Lib.Text
import DomainStatus.Security.UrlValidation
import Mathlib.Data.List.AList

/-!
# The per-host token buckets

`HostRateLimiter` and its buckets, after `src/initialization/host_rate_limiter.rs`, with `f64` and
`Instant` read as exact rationals. A refill reads the clock first and then runs its locked section,
so the sections of concurrent calls need not run in the order of their clock readings. Read
`step_bucket` first: it says what one step can do to the bucket of a host. `host_bucket_sound`
bounds the available permits of every run, and the granted ones of every run whose locked sections
never move `last_refill` backwards.
-/

namespace DomainStatus.PerHost

open Trace RateLimiter Security

/-- `HostRateLimiter` without its buckets. The burst is at least one. -/
structure HostRateLimiter where
  rps : ℕ
  burst : ℕ
  burst_pos : 1 ≤ burst

/-- A limiter with room for one permit at least. -/
def HostRateLimiter.new (rps burst : ℕ) : HostRateLimiter where
  rps := rps
  burst := max burst 1
  burst_pos := Nat.le_max_right burst 1

section HostKey

variable (U : UrlCrate)

/-- The URL of a text, which may lack its scheme. -/
def parseUrlForHost (url : String) : Option U.Url :=
  (U.parse url).or (U.parse ("https://" ++ url))

/-- The host that a URL is counted for. -/
def hostKey (url : String) : Option String :=
  ((parseUrlForHost U url).bind U.hostStr).map Text.toAsciiLowercase

end HostKey

/-- The seconds that a call waits after it found no permit. -/
def perHostRetryDelay (rps : ℕ) : ℚ :=
  if rps = 0 then 100 / 1000 else (1000 / max rps 1 : ℕ) / 1000

/-- One bucket. `createdAt` and `acquired` are not stored by the program: they are the time at which
the bucket was made and the number of permits that calls have taken from it. -/
structure HostBucket where
  permits : ℕ
  lastRefill : ℚ
  fractional : ℚ
  createdAt : ℚ
  acquired : ℕ
  deriving DecidableEq

namespace HostBucket

/-- The bucket of a host that is seen for the first time. -/
def create (limiter : HostRateLimiter) (now : ℚ) : HostBucket :=
  { permits := limiter.burst, lastRefill := now, fractional := 0, createdAt := now, acquired := 0 }

/-- The locked section of `refill`, with the reading of the clock that it was called with. -/
def refill (limiter : HostRateLimiter) (now : ℚ) (bucket : HostBucket) : HostBucket :=
  -- `saturating_duration_since` is zero for a reading before the last one.
  let elapsed := max (now - bucket.lastRefill) 0
  let (permitsToAdd, newFractional) := computeRefillPermits limiter.rps elapsed bucket.permits
    limiter.burst bucket.fractional
  { bucket with
    permits := bucket.permits + permitsToAdd
    fractional := newFractional
    lastRefill := now }

/-- Takes a permit. -/
def take (bucket : HostBucket) : HostBucket :=
  { bucket with permits := bucket.permits - 1, acquired := bucket.acquired + 1 }

end HostBucket

/-- Where a call of `acquire` is: before the clock is read, between the reading and the locked
section, before `try_acquire`, asleep, or through. -/
inductive Phase where
  | refilling
  | entering (now : ℚ)
  | trying
  | sleeping (wake : ℚ)
  | granted
  deriving DecidableEq

/-- The reading of the clock that a call takes to its locked section. -/
def Phase.reading : Phase → Option ℚ
  | .entering now => some now
  | _ => none

/-- A call that waits for a permit of its host. -/
structure Call where
  host : String
  phase : Phase
  deriving DecidableEq

/-- The limiter's clock, its buckets and the calls of `acquire` so far. -/
structure State where
  now : ℚ
  buckets : AList fun _ : String => HostBucket
  calls : List Call

/-- No call and no bucket. -/
def State.init : State :=
  { now := 0, buckets := ∅, calls := [] }

/-- What a call does next, given the clock and the bucket of its host. -/
def callStep (limiter : HostRateLimiter) (now : ℚ) (bucket : HostBucket) :
    Phase → Option (Phase × HostBucket)
  | .refilling => some (.entering now, bucket)
  | .entering reading => some (.trying, bucket.refill limiter reading)
  | .trying =>
      if 0 < bucket.permits then some (.granted, bucket.take)
      else some (.sleeping (now + perHostRetryDelay limiter.rps), bucket)
  | .sleeping wake => if wake ≤ now then some (.refilling, bucket) else none
  | .granted => none

/-- What can happen next: time passes, `acquire` is called, or one of the calls goes on. -/
inductive Event where
  | advance (interval : ℚ≥0)
  | call (url : String)
  | goOn (number : ℕ)

/-- `bucket`: the buckets with one for the host, which is made when there is none. -/
def openBucket (limiter : HostRateLimiter) (state : State) (host : String) :
    AList fun _ : String => HostBucket :=
  match state.buckets.lookup host with
  | some _ => state.buckets
  | none => state.buckets.insert host (.create limiter state.now)

/-- One step. A URL without a host takes no permit. -/
def step (U : UrlCrate) (limiter : HostRateLimiter) (state : State) : Event → Option State
  | .advance interval => some { state with now := state.now + interval }
  | .call url =>
      match hostKey U url with
      | none => some state
      | some host =>
          some { state with
            buckets := openBucket limiter state host
            calls := state.calls ++ [{ host := host, phase := .refilling }] }
  | .goOn number => do
      let call ← state.calls[number]?
      let bucket ← state.buckets.lookup call.host
      let (phase, after) ← callStep limiter state.now bucket call.phase
      some { state with
        buckets := state.buckets.insert call.host after
        calls := state.calls.set number { call with phase := phase } }

/-! ## One step -/

variable {U : UrlCrate} {limiter : HostRateLimiter} {state next : State} {event : Event}

/-- After an insertion, a bucket is the inserted one or was there before. -/
theorem lookup_insert_cases {buckets : AList fun _ : String => HostBucket} {owner host : String}
    {added bucket : HostBucket} (h : (buckets.insert owner added).lookup host = some bucket) :
    (host = owner ∧ bucket = added) ∨ buckets.lookup host = some bucket := by
  by_cases hhost : host = owner
  · subst hhost
    rw [AList.lookup_insert] at h
    exact .inl ⟨rfl, (Option.some.inj h).symm⟩
  · rw [AList.lookup_insert_ne hhost] at h
    exact .inr h

/-- What lets a call go on. -/
theorem goOn_inv {number : ℕ} (hstep : step U limiter state (.goOn number) = some next) :
    ∃ call bucket phase after, state.calls[number]? = some call ∧
      state.buckets.lookup call.host = some bucket ∧
      callStep limiter state.now bucket call.phase = some (phase, after) ∧
      next = { state with
        buckets := state.buckets.insert call.host after
        calls := state.calls.set number { call with phase := phase } } := by
  simp only [step, Option.bind_eq_bind, Option.bind_eq_some_iff] at hstep
  obtain ⟨call, hcall, bucket, hbucket, ⟨phase, after⟩, hcallStep, hnext⟩ := hstep
  exact ⟨call, bucket, phase, after, hcall, hbucket, hcallStep, (Option.some.inj hnext).symm⟩

/-- What a step can do to the bucket of a host: nothing, make it, or let a call to the host go on.
-/
inductive BucketStep (limiter : HostRateLimiter) (state : State) (host : String) :
    Event → HostBucket → Prop
  | same {event : Event} {bucket : HostBucket} (hbucket : state.buckets.lookup host = some bucket) :
      BucketStep limiter state host event bucket
  | created {event : Event} : BucketStep limiter state host event (.create limiter state.now)
  | goOn {number : ℕ} {phase phase' : Phase} {bucket after : HostBucket}
      (hcall : state.calls[number]? = some { host := host, phase := phase })
      (hbucket : state.buckets.lookup host = some bucket)
      (hstep : callStep limiter state.now bucket phase = some (phase', after)) :
      BucketStep limiter state host (.goOn number) after

/-- Every step is one of these for the bucket of each host. -/
theorem step_bucket {host : String} {bucket : HostBucket}
    (hstep : step U limiter state event = some next)
    (hbucket : next.buckets.lookup host = some bucket) :
    BucketStep limiter state host event bucket := by
  cases event with
  | advance interval =>
      cases hstep
      exact .same hbucket
  | call url =>
      simp only [step] at hstep
      split at hstep
      · cases hstep
        exact .same hbucket
      · cases hstep
        simp only [openBucket] at hbucket
        split at hbucket
        · exact .same hbucket
        · obtain ⟨-, rfl⟩ | hbefore := lookup_insert_cases hbucket
          · exact .created
          · exact .same hbefore
  | goOn number =>
      obtain ⟨⟨owner, phase⟩, before, phase', after, hcall, hbefore, hcallStep, rfl⟩ :=
        goOn_inv hstep
      obtain ⟨rfl, rfl⟩ | hother := lookup_insert_cases hbucket
      · exact .goOn hcall hbefore hcallStep
      · exact .same hother

/-- Time does not go back. -/
theorem step_now_le (hstep : step U limiter state event = some next) : state.now ≤ next.now := by
  cases event with
  | advance interval =>
      cases hstep
      exact le_add_of_nonneg_right interval.2
  | call url =>
      simp only [step] at hstep
      split at hstep <;> cases hstep <;> exact le_rfl
  | goOn number =>
      obtain ⟨call, bucket, phase, after, -, -, -, rfl⟩ := goOn_inv hstep
      exact le_rfl

/-! ## Available permits -/

/-- No bucket holds more permits than the burst. -/
def WithinBurst (limiter : HostRateLimiter) (state : State) : Prop :=
  ∀ host bucket, state.buckets.lookup host = some bucket → bucket.permits ≤ limiter.burst

/-- No bucket holds more than the burst after a step. -/
theorem within_burst_step (hwithin : WithinBurst limiter state)
    (hstep : step U limiter state event = some next) : WithinBurst limiter next := by
  intro host bucket hbucket
  cases step_bucket hstep hbucket with
  | same hbefore => exact hwithin host bucket hbefore
  | created => exact le_rfl
  | @goOn _ phase phase' before _ hcall hbefore hcallStep =>
      have hle := hwithin host before hbefore
      cases phase with
      | refilling | granted => grind [callStep]
      | entering reading =>
          cases hcallStep
          have hmissing := @refill_le_missing limiter.rps (max (reading - before.lastRefill) 0)
            before.fractional before.permits limiter.burst
          simp only [HostBucket.refill]
          omega
      | trying => grind [callStep, HostBucket.take]
      | sleeping wake => grind [callStep]

/-! ## Granted permits -/

/-- Every reading of the clock is in the past. -/
def ReadingsPast (state : State) : Prop :=
  ∀ call ∈ state.calls, ∀ reading, call.phase = .entering reading → reading ≤ state.now

/-- What was read lies in the past after a step. -/
theorem readings_past_step (hpast : ReadingsPast state)
    (hstep : step U limiter state event = some next) : ReadingsPast next := by
  intro call hcall reading hphase
  have hnow := step_now_le hstep
  cases event with
  | advance interval =>
      cases hstep
      exact (hpast call hcall reading hphase).trans hnow
  | call url =>
      simp only [step] at hstep
      split at hstep
      · cases hstep
        exact hpast call hcall reading hphase
      · cases hstep
        rcases List.mem_append.mp hcall with hbefore | hnew
        · exact hpast call hbefore reading hphase
        · rw [List.mem_singleton.mp hnew] at hphase
          cases hphase
  | goOn number =>
      obtain ⟨before, bucket, phase, after, hbefore, -, hcallStep, rfl⟩ := goOn_inv hstep
      rcases List.mem_or_eq_of_mem_set hcall with hother | rfl
      · exact hpast call hother reading hphase
      · -- Only a call that has just read the clock waits for the lock.
        subst hphase
        unfold callStep at hcallStep
        grind

/-- The locked section of a call to the host does not move `last_refill` backwards. Every other
event qualifies. -/
def InOrder (host : String) (state : State) : Event → Prop
  | .goOn number =>
      ∀ call ∈ state.calls[number]?, call.host = host → ∀ reading ∈ call.phase.reading,
        ∀ bucket ∈ state.buckets.lookup host, bucket.lastRefill ≤ reading
  | _ => True

instance (host : String) (state : State) : (event : Event) → Decidable (InOrder host state event)
  | .goOn _ => by
      unfold InOrder
      infer_instance
  | .advance _ | .call _ => isTrue trivial

/-- The permits that were available or taken so far are covered by the burst and by the time that
the refills have seen. -/
structure Covered (limiter : HostRateLimiter) (now : ℚ) (bucket : HostBucket) : Prop where
  fraction_nonneg : 0 ≤ bucket.fractional
  last_le_now : bucket.lastRefill ≤ now
  earned : (bucket.permits : ℚ) + bucket.acquired + bucket.fractional ≤
    limiter.burst + limiter.rps * (bucket.lastRefill - bucket.createdAt)

variable {bucket after : HostBucket} {now : ℚ}

/-- A new bucket is covered. -/
theorem Covered.create (limiter : HostRateLimiter) (now : ℚ) :
    Covered limiter now (.create limiter now) :=
  ⟨le_rfl, le_rfl, by simp [HostBucket.create]⟩

/-- A refill that does not go back in time credits the time since the last one, and only that. -/
theorem Covered.refill (h : Covered limiter now bucket) {reading : ℚ}
    (horder : bucket.lastRefill ≤ reading) (hpast : reading ≤ now) :
    Covered limiter now (bucket.refill limiter reading) := by
  have helapsed : 0 ≤ reading - bucket.lastRefill := sub_nonneg.mpr horder
  have hle := @refill_le_earned limiter.rps _ _ bucket.permits limiter.burst helapsed
    h.fraction_nonneg
  have hnonneg := @refill_fraction_nonneg limiter.rps _ _ bucket.permits limiter.burst helapsed
    h.fraction_nonneg
  rw [← max_eq_left helapsed] at hle hnonneg
  refine ⟨hnonneg, hpast, ?_⟩
  have hearned := h.earned
  simp only [HostBucket.refill]
  push_cast
  rw [max_eq_left helapsed] at hle ⊢
  linarith

/-- Taking a permit keeps a bucket covered. -/
theorem Covered.take (h : Covered limiter now bucket) (hpermits : 0 < bucket.permits) :
    Covered limiter now bucket.take := by
  refine ⟨h.fraction_nonneg, h.last_le_now, ?_⟩
  have hearned := h.earned
  simp only [HostBucket.take]
  push_cast [Nat.cast_sub hpermits]
  linarith

/-- The invariant of the runs whose locked sections are in order. -/
structure Invariant (limiter : HostRateLimiter) (host : String) (state : State) : Prop where
  past : ReadingsPast state
  covered : ∀ bucket, state.buckets.lookup host = some bucket → Covered limiter state.now bucket

/-- One step keeps the invariant. -/
theorem invariant_step {host : String} (hinv : Invariant limiter host state)
    (horder : InOrder host state event) (hstep : step U limiter state event = some next) :
    Invariant limiter host next := by
  refine ⟨readings_past_step hinv.past hstep, fun bucket hbucket => ?_⟩
  have hnow := step_now_le hstep
  -- What is covered at the time before the step is covered at the time after it.
  suffices h : Covered limiter state.now bucket from
    ⟨h.fraction_nonneg, h.last_le_now.trans hnow, h.earned⟩
  cases step_bucket hstep hbucket with
  | same hbefore => exact hinv.covered bucket hbefore
  | created => exact .create limiter state.now
  | @goOn _ phase phase' before _ hcall hbefore hcallStep =>
      have hcovered := hinv.covered before hbefore
      cases phase with
      | refilling =>
          cases hcallStep
          exact hcovered
      | entering reading =>
          cases hcallStep
          exact hcovered.refill (horder _ hcall rfl reading rfl before hbefore)
            (hinv.past _ (List.mem_of_getElem? hcall) reading rfl)
      | trying =>
          simp only [callStep] at hcallStep
          split at hcallStep <;> cases hcallStep
          next hpermits => exact hcovered.take hpermits
          · exact hcovered
      | sleeping wake =>
          simp only [callStep] at hcallStep
          split at hcallStep <;> cases hcallStep
          exact hcovered
      | granted => cases hcallStep

/-- In every run no bucket holds more permits than the burst. In every run in which no locked
section of a call to a host moves `last_refill` backwards, the permits granted for it are at most
the burst plus the rate times the time since its bucket was made. -/
theorem host_bucket_sound (U : UrlCrate) (limiter : HostRateLimiter) (events : List Event)
    (state : State) (hrun : runTrace (step U limiter) .init events = some state) (host : String)
    (bucket : HostBucket) (hbucket : state.buckets.lookup host = some bucket) :
    bucket.permits ≤ limiter.burst ∧
      (Along (step U limiter) (InOrder host) .init events →
        (bucket.acquired : ℚ) ≤ limiter.burst + limiter.rps * (state.now - bucket.createdAt)) := by
  constructor
  · have hwithin : WithinBurst limiter state :=
      invariant_run (fun _ _ _ hwithin hstep => within_burst_step hwithin hstep)
        (fun _ _ h => by simp [State.init] at h) hrun
    exact hwithin host bucket hbucket
  · intro horder
    have hinit : Invariant limiter host .init :=
      ⟨fun _ h => by simp [State.init] at h, fun _ h => by simp [State.init] at h⟩
    have hinv := invariant_along (fun _ _ _ => invariant_step) hinit horder hrun
    obtain ⟨hfraction, hlast, hearned⟩ := hinv.covered bucket hbucket
    have htime : (limiter.rps : ℚ) * (bucket.lastRefill - bucket.createdAt) ≤
        limiter.rps * (state.now - bucket.createdAt) := by
      gcongr
    have hpermits : (0 : ℚ) ≤ bucket.permits := Nat.cast_nonneg _
    linarith

/-- Two calls take the burst, and after a second a third call takes what was earned. -/
def orderedEvents : List Event :=
  [.call "https://example.com/", .call "https://example.com/", .goOn 0, .goOn 0, .goOn 0, .goOn 1,
    .goOn 1, .goOn 1, .advance 1, .call "https://example.com/", .goOn 2, .goOn 2, .goOn 2]

/-- The time and the bucket after a run. -/
def bucketAfter (events : List Event) : Option (ℚ × HostBucket) := do
  let state ← runTrace (step exampleUrlCrate (.new 2 2)) .init events
  let bucket ← state.buckets.lookup "example.com"
  some (state.now, bucket)

/-- The run behind a bucket. -/
theorem bucketAfter_eq_some {events : List Event} {now : ℚ} {bucket : HostBucket}
    (h : bucketAfter events = some (now, bucket)) :
    ∃ state, runTrace (step exampleUrlCrate (.new 2 2)) .init events = some state ∧
      state.now = now ∧ state.buckets.lookup "example.com" = some bucket := by
  simp only [bucketAfter, Option.bind_eq_bind, Option.bind_eq_some_iff] at h
  obtain ⟨state, hrun, found, hfound, h⟩ := h
  cases h
  exact ⟨state, hrun, rfl, hfound⟩

/-- At a burst of two and a rate of two, three permits are granted in the first second. -/
theorem host_bucket_sound_ordered :
    ∃ state bucket, runTrace (step exampleUrlCrate (.new 2 2)) .init orderedEvents = some state ∧
      state.buckets.lookup "example.com" = some bucket ∧ bucket.acquired = 3 ∧
      (bucket.acquired : ℚ) ≤ (2 : ℕ) + (2 : ℕ) * (state.now - bucket.createdAt) := by
  have hend : bucketAfter orderedEvents = some (1, ⟨1, 1, 0, 0, 3⟩) := by decide +kernel
  obtain ⟨state, hrun, -, hbucket⟩ := bucketAfter_eq_some hend
  exact ⟨state, _, hrun, hbucket, rfl,
    (host_bucket_sound exampleUrlCrate _ orderedEvents state hrun _ _ hbucket).2
      (by decide +kernel)⟩

/-- The third call reads the clock at the start and reaches its locked section only after a refill
at one second. Its old reading makes the fifth call earn the first second once more. -/
def doubleCreditEvents : List Event :=
  [.call "https://example.com/", .call "https://example.com/", .goOn 0, .goOn 0, .goOn 0, .goOn 1,
    .goOn 1, .goOn 1, .call "https://example.com/", .goOn 2, .advance 1,
    .call "https://example.com/", .goOn 3, .goOn 3, .goOn 3, .goOn 2, .goOn 2,
    .call "https://example.com/", .goOn 4, .goOn 4, .goOn 4]

/-- Five permits are granted in the first second, at a burst of two and a rate of two. -/
theorem host_bucket_credits_twice :
    ¬ ∀ (U : UrlCrate) (limiter : HostRateLimiter) (events : List Event) (state : State),
      runTrace (step U limiter) .init events = some state →
      ∀ host bucket, state.buckets.lookup host = some bucket →
        bucket.permits ≤ limiter.burst ∧
          (bucket.acquired : ℚ) ≤ limiter.burst + limiter.rps * (state.now - bucket.createdAt) := by
  intro h
  have hend : bucketAfter doubleCreditEvents = some (1, ⟨1, 1, 0, 0, 5⟩) := by decide +kernel
  obtain ⟨state, hrun, hnow, hbucket⟩ := bucketAfter_eq_some hend
  have hle := (h exampleUrlCrate _ doubleCreditEvents state hrun _ _ hbucket).2
  rw [hnow] at hle
  exact absurd hle (by decide +kernel)

end DomainStatus.PerHost
