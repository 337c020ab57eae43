import DomainStatus.Lib.Usize
import DomainStatus.Run.Facts

/-!
# Progress of a running scan

A request for the status loads the counters one after the other while the scan goes on, as
`progress_snapshot` of `src/status_server/progress.rs` does. Any order of the steps of the scan and
of the loads is a run here. The percentages, the rates and the estimate of the time that is left
are floats and are left out. Read `progress_snapshots_consistent` first.
-/

namespace DomainStatus.StatusServer

open Scan Trace Usize

/-! ## Counters -/

/-- The counters that a request loads. -/
structure Counters where
  attempted : ℕ
  successful : ℕ
  failed : ℕ
  skipped : ℕ
  deriving DecidableEq

namespace Counters

/-- The URLs that are done. -/
def done (counters : Counters) : ℕ :=
  counters.successful + counters.failed + counters.skipped

/-- Every counter is at most the other. -/
instance : LE Counters where
  le left right := left.attempted ≤ right.attempted ∧ left.successful ≤ right.successful ∧
    left.failed ≤ right.failed ∧ left.skipped ≤ right.skipped

instance : Preorder Counters where
  le_refl _ := ⟨le_rfl, le_rfl, le_rfl, le_rfl⟩
  le_trans _ _ _ h hother := ⟨h.1.trans hother.1, h.2.1.trans hother.2.1,
    h.2.2.1.trans hother.2.2.1, h.2.2.2.trans hother.2.2.2⟩

instance (left right : Counters) : Decidable (left ≤ right) :=
  inferInstanceAs (Decidable (_ ∧ _ ∧ _ ∧ _))

/-- More of each counter is more done. -/
theorem done_le {left right : Counters} (h : left ≤ right) : left.done ≤ right.done := by
  obtain ⟨-, hsuccessful, hfailed, hskipped⟩ := h
  unfold done
  omega

end Counters

/-- The counters of a scan. -/
def countersOf (state : State) : Counters where
  attempted := state.attempted.card
  successful := state.successful.card
  failed := state.failed.card
  skipped := state.skipped.card

/-! ## Snapshots -/

/-- What the status server shows of a running scan. -/
structure ProgressSnapshot where
  totalUrls : ℕ
  attempted : ℕ
  successful : ℕ
  failed : ℕ
  skipped : ℕ
  finished : ℕ
  activeUrls : ℕ
  pendingUrls : ℕ
  deriving DecidableEq

/-- What is shown of the loaded counters. -/
def progressSnapshot (totalUrls : ℕ) (loaded : Counters) : ProgressSnapshot :=
  let finished := saturatingAdd (saturatingAdd loaded.successful loaded.failed) loaded.skipped
  { totalUrls
    attempted := loaded.attempted
    successful := loaded.successful
    failed := loaded.failed
    skipped := loaded.skipped
    finished
    activeUrls := loaded.attempted - finished
    pendingUrls := totalUrls - loaded.attempted }

/-- The next counter to load. -/
inductive Load
  | attempted | successful | failed | skipped
  deriving DecidableEq

/-- A client that asks for the status again and again: the values that it got last, and the counters
of its complete snapshots, the latest first. -/
structure Reader where
  next : Load
  loaded : Counters
  shown : List Counters
  deriving DecidableEq

/-- A client that has asked for nothing yet. -/
def Reader.init : Reader where
  next := .attempted
  loaded := ⟨0, 0, 0, 0⟩
  shown := []

/-- One load. -/
def Reader.load (reader : Reader) (now : Counters) : Reader :=
  let loaded := reader.loaded
  match reader.next with
  | .attempted =>
      { reader with next := .successful, loaded := { loaded with attempted := now.attempted } }
  | .successful =>
      { reader with next := .failed, loaded := { loaded with successful := now.successful } }
  | .failed => { reader with next := .skipped, loaded := { loaded with failed := now.failed } }
  | .skipped =>
      let loaded := { loaded with skipped := now.skipped }
      { next := .attempted, loaded, shown := loaded :: reader.shown }

/-- A scan with a client. -/
structure Watched where
  scan : State
  reader : Reader

/-- A step of the scan, or a load. -/
def watchedStep (setup : Setup) (state : Watched) : Option Event → Option Watched
  | some event => (step setup state.scan event).map fun scan => { state with scan }
  | none => some { state with reader := state.reader.load (countersOf state.scan) }

/-- The lines of a file that `init_scan_resources` counts, up to the first that cannot be read. -/
def countUrls : List (Option String) → ℕ
  | [] => 0
  | none :: _ => 0
  | some line :: rest =>
      let trimmed := Text.trim line
      if trimmed ≠ "" ∧ ¬ Text.startsWith trimmed "#" then countUrls rest + 1 else countUrls rest

/-! ## Counters only grow -/

section Growth

variable {setup : Setup} {state next : State} {event : Event}

/-- The counters grow with the numbers they are taken from. -/
theorem countersOf_mono (hattempted : state.attempted ≤ next.attempted)
    (hsuccessful : state.successful ≤ next.successful) (hfailed : state.failed ≤ next.failed)
    (hskipped : state.skipped ≤ next.skipped) : countersOf state ≤ countersOf next :=
  ⟨Multiset.card_le_card hattempted, Multiset.card_le_card hsuccessful,
    Multiset.card_le_card hfailed, Multiset.card_le_card hskipped⟩

/-- An effect only adds to the counters. -/
theorem countersOf_apply (domainOf : String → String) (state : State) (url : String)
    (effect : Effect) : countersOf state ≤ countersOf (state.apply domainOf url effect) := by
  cases effect with
  | statusRow inserted => cases inserted <;> exact le_refl _
  | none | failureRow => exact le_refl _
  | successful => exact countersOf_mono le_rfl (Multiset.le_cons_self _ url) le_rfl le_rfl
  | failed => exact countersOf_mono le_rfl le_rfl (Multiset.le_cons_self _ url) le_rfl
  | skipped => exact countersOf_mono le_rfl le_rfl le_rfl (Multiset.le_cons_self _ url)

/-- Reading a line only adds to the counters. -/
theorem countersOf_readLine (setup : Setup) (state : State) :
    countersOf state ≤ countersOf (readLine setup state) := by
  have hskip : ∀ state : State, ∀ url, countersOf state ≤ countersOf (state.skipUrl url) :=
    fun state url => countersOf_mono (Multiset.le_cons_self _ url) le_rfl le_rfl
      (Multiset.le_cons_self _ url)
  unfold readLine
  split
  · exact le_refl _
  · simp only
    split <;> exact le_refl _
  · simp only
    split
    · exact le_refl _
    · split
      · exact hskip _ _
      · split
        · exact le_refl _
        · exact hskip _ _

/-- A step only adds to the counters. -/
theorem countersOf_step (h : step setup state event = some next) :
    countersOf state ≤ countersOf next := by
  cases event with
  | task number event =>
      obtain ⟨task, phase, effect, -, -, rfl⟩ := step_task_inv h
      refine le_trans (le_of_eq ?_) (countersOf_apply setup.domainOf _ task.url effect)
      rfl
  | readLine =>
      simp only [step] at h
      split at h <;> cases h
      exact countersOf_readLine setup state
  | abandonDone =>
      simp only [step] at h
      split at h
      · split at h <;> cases h
        exact countersOf_mono le_rfl le_rfl (Multiset.le_add_left _ _) le_rfl
      · cases h
  | acquirePermit =>
      simp only [step] at h
      split at h
      · split at h <;> cases h
        exact countersOf_mono (Multiset.le_cons_self _ _) le_rfl le_rfl le_rfl
      · cases h
  | _ =>
      simp only [step] at h
      repeat' split at h
      all_goals cases h
      all_goals exact le_refl _

end Growth

/-! ## Bounds of a scan -/

/-- The URL that waits for a permit is not attempted yet. -/
def waiting : MainPhase → ℕ
  | .permit _ => 1
  | _ => 0

/-- A task ended without a return. -/
def isBroken : TaskPhase → Bool
  | .broken _ => true
  | _ => false

/-- The bounds that a scan keeps: the URLs are among those that were counted before, and those that
are not done are no more than the permits. -/
structure Bounded (setup : Setup) (totalUrls : ℕ) (state : State) : Prop where
  sound : (counterView.ledger state).Sound
  readable : ∀ line ∈ state.input, line.isSome
  total : state.attempted.card + waiting state.main + countUrls state.input ≤ totalUrls
  permits : state.running ≤ setup.maxConcurrency
  unbroken : state.main.closed = false → ∀ task ∈ state.tasks, isBroken task.phase = false
  active : (countersOf state).attempted ≤ (countersOf state).done + setup.maxConcurrency

/-- The event is the panic of a task. -/
def panics : Event → Bool
  | .task _ .panic => true
  | _ => false

/-- The steps that keep the bounds: the counters stay exact and no task panics. -/
def Steady (state : State) (event : Event) : Prop :=
  CounterOk state event ∧ panics event = false

instance (state : State) (event : Event) : Decidable (Steady state event) :=
  inferInstanceAs (Decidable (_ ∧ _))

section Bounds

variable {setup : Setup} {state next : State} {event : Event} {totalUrls : ℕ}

/-- What is settled is what the counters say is done. -/
theorem card_settled (state : State) :
    (counterView.ledger state).settled.card = (countersOf state).done := by
  show (state.successful + state.failed + state.skipped).card = _
  rw [Multiset.card_add, Multiset.card_add]
  rfl

/-- No more URLs are done than attempted. -/
theorem done_le_attempted (h : (counterView.ledger state).Sound) :
    (countersOf state).done ≤ (countersOf state).attempted := by
  have hcard := Multiset.card_le_card ((Multiset.le_add_right _ _).trans h.covered_le)
  rwa [card_settled] at hcard

/-- Before the snapshot of the drain each URL that is not done has a running task. -/
theorem active_of_open (hsound : (counterView.ledger state).Sound)
    (hpermits : state.running ≤ setup.maxConcurrency) (hopen : state.main.closed = false)
    (hunbroken : ∀ task ∈ state.tasks, isBroken task.phase = false) :
    (countersOf state).attempted ≤ (countersOf state).done + setup.maxConcurrency := by
  have hpending : (counterView.ledger state).pending = 0 := by
    cases hmain : state.main <;> simp_all [View.ledger, MainPhase.closed]
  have howing : (counterView.ledger state).owing.card ≤ state.running := by
    show (owingUrls (owesCount state.main.closed) state.tasks).card ≤ _
    rw [owingUrls, Multiset.coe_card, List.length_map, ← List.countP_eq_length_filter, hopen]
    refine List.countP_mono_left fun task htask howes => ?_
    have hphase := hunbroken task htask
    cases hcase : task.phase <;>
      simp_all [owesCount, TaskPhase.hasCounted, TaskPhase.running, isBroken]
  have hcard := congrArg Multiset.card hsound.attempted_eq
  rw [hpending, add_zero, hsound.owed_eq hopen, Multiset.card_add, card_settled] at hcard
  show state.attempted.card ≤ _
  have hattempted : (counterView.ledger state).attempted.card = state.attempted.card := rfl
  omega

/-- The drain does not go back. -/
theorem closed_step (h : step setup state event = some next) (hclosed : state.main.closed = true) :
    next.main.closed = true := by
  cases event with
  | task number event =>
      rw [step_task_main h]
      exact hclosed
  | _ =>
      simp only [step] at h
      repeat' split at h
      all_goals cases h
      all_goals simp_all [MainPhase.closed]

/-- After the snapshot of the drain no URL is attempted. -/
theorem attempted_step (h : step setup state event = some next)
    (hclosed : next.main.closed = true) : next.attempted = state.attempted := by
  cases event with
  | task number event =>
      obtain ⟨task, phase, effect, -, -, rfl⟩ := step_task_inv h
      cases effect with
      | statusRow inserted => cases inserted <;> rfl
      | _ => rfl
  | readLine =>
      have hopen : (readLine setup state).main.closed = false := by
        unfold readLine State.skipUrl
        simp only
        repeat' split
        all_goals rfl
      simp only [step] at h
      split at h <;> cases h
      rw [hopen] at hclosed
      cases hclosed
  | acquirePermit =>
      simp only [step] at h
      split at h
      · split at h <;> cases h
        cases hclosed
      · cases h
  | _ =>
      simp only [step] at h
      repeat' split at h
      all_goals cases h
      all_goals rfl

/-- A line counts unless it is blank or a comment. -/
theorem countUrls_some (line : String) (rest : List (Option String)) :
    countUrls (some line :: rest) = countUrls rest +
      if Text.trim line = "" || Text.startsWith (Text.trim line) "#" then 0 else 1 := by
  rw [countUrls]
  by_cases hempty : Text.trim line = "" <;>
    by_cases hcomment : Text.startsWith (Text.trim line) "#" = true <;> simp [hempty, hcomment]

/-- A line of the input is attempted, waits for a permit, or was not counted. -/
theorem input_readLine (hmain : state.main = .selecting)
    (hreadable : ∀ line ∈ state.input, line.isSome) :
    (∀ line ∈ (readLine setup state).input, line.isSome) ∧
      (readLine setup state).attempted.card + waiting (readLine setup state).main +
          countUrls (readLine setup state).input ≤
        state.attempted.card + waiting state.main + countUrls state.input := by
  have hwaiting : waiting state.main = 0 := by rw [hmain]; rfl
  rw [hwaiting]
  unfold readLine
  split
  next hinput => simp [hinput, waiting]
  next rest hinput => simp [hinput] at hreadable
  next line rest hinput =>
    rw [hinput] at hreadable
    have hrest : ∀ line ∈ rest, line.isSome := fun line hline =>
      hreadable line (List.mem_cons_of_mem _ hline)
    rw [hinput, countUrls_some]
    simp only [State.skipUrl]
    split
    · exact ⟨hrest, le_refl _⟩
    · split
      · refine ⟨hrest, ?_⟩
        simp only [waiting, Multiset.card_cons]
        omega
      · split
        · exact ⟨hrest, by simp only [waiting]; omega⟩
        · refine ⟨hrest, ?_⟩
          simp only [waiting, Multiset.card_cons]
          omega

/-- A step does not read more URLs than there are. -/
theorem input_step (hreadable : ∀ line ∈ state.input, line.isSome)
    (h : step setup state event = some next) :
    (∀ line ∈ next.input, line.isSome) ∧
      next.attempted.card + waiting next.main + countUrls next.input ≤
        state.attempted.card + waiting state.main + countUrls state.input := by
  cases event with
  | task number event =>
      obtain ⟨task, phase, effect, -, -, rfl⟩ := step_task_inv h
      cases effect with
      | statusRow inserted => cases inserted <;> exact ⟨hreadable, le_refl _⟩
      | _ => exact ⟨hreadable, le_refl _⟩
  | readLine =>
      simp only [step] at h
      split at h <;> cases h
      exact input_readLine ‹_› hreadable
  | acquirePermit =>
      simp only [step] at h
      split at h
      next url hmain =>
        split at h <;> cases h
        refine ⟨hreadable, ?_⟩
        simp only [hmain, waiting, Multiset.card_cons]
        omega
      · cases h
  | _ =>
      simp only [step] at h
      repeat' split at h
      all_goals cases h
      all_goals exact ⟨hreadable, by simp [waiting, *]⟩

/-- No step makes a task run again, and without a panic none breaks before the drain has
returned. -/
theorem taskStep_running {cancelled isNewDomain reaping aborting : Bool}
    {phase after : TaskPhase} {event : TaskEvent} {effect : Effect}
    (h : taskStep cancelled isNewDomain reaping aborting phase event = some (after, effect)) :
    (after.running = true → phase.running = true) ∧
      (event ≠ .panic → aborting = false → isBroken phase = false → isBroken after = false) := by
  cases event with
  | panic =>
      simp only [taskStep] at h
      split at h <;> cases h
      exact ⟨fun hafter => absurd hafter Bool.false_ne_true, fun hevent => absurd rfl hevent⟩
  | abort =>
      simp only [taskStep] at h
      split at h <;> cases h
      refine ⟨fun hafter => absurd hafter Bool.false_ne_true, fun _ haborting _ => ?_⟩
      simp_all
  | reap =>
      simp only [taskStep] at h
      repeat' split at h
      all_goals cases h
      all_goals exact ⟨fun hafter => absurd hafter Bool.false_ne_true, fun _ _ _ => rfl⟩
  | _ =>
      simp only [taskStep, taskProgress] at h
      repeat' split at h
      all_goals cases h
      all_goals exact ⟨fun _ => rfl, fun _ _ _ => rfl⟩

/-- The running tasks are those that owe a URL. -/
theorem card_owingUrls_running (tasks : List Task) :
    (owingUrls TaskPhase.running tasks).card = tasks.countP fun task => task.phase.running := by
  rw [owingUrls, Multiset.coe_card, List.length_map, ← List.countP_eq_length_filter]

/-- An effect of a task changes neither the tasks nor where the scan is. -/
theorem tasks_apply (domainOf : String → String) (state : State) (url : String)
    (effect : Effect) : (state.apply domainOf url effect).tasks = state.tasks := by
  cases effect with
  | statusRow inserted => cases inserted <;> rfl
  | _ => rfl

/-- The tasks keep to the permits. -/
theorem tasks_step (hpermits : state.running ≤ setup.maxConcurrency)
    (hunbroken : state.main.closed = false → ∀ task ∈ state.tasks, isBroken task.phase = false)
    (hpanic : panics event = false)
    (h : step setup state event = some next) :
    next.running ≤ setup.maxConcurrency ∧
      (next.main.closed = false → ∀ task ∈ next.tasks, isBroken task.phase = false) := by
  have hopen : next.main.closed = false → state.main.closed = false := by
    intro hnext
    by_contra hclosed
    rw [closed_step h (by simpa using hclosed)] at hnext
    cases hnext
  cases event with
  | task number event =>
      have hmain := step_task_main h
      obtain ⟨task, phase, effect, htask, hstep, rfl⟩ := step_task_inv h
      obtain ⟨hrunning, hbroken⟩ := taskStep_running hstep
      constructor
      · obtain ⟨rest, hbefore, hafter⟩ := owing_urls_set TaskPhase.running htask
        have hle : owingUrl TaskPhase.running { task with phase } ≤
            owingUrl TaskPhase.running task := by
          unfold owingUrl
          split
          · rw [if_pos (hrunning ‹_›)]
          · exact Multiset.zero_le _
        have hcard := Multiset.card_le_card (add_le_add_left hle rest)
        rw [← hafter, ← hbefore, card_owingUrls_running, card_owingUrls_running] at hcard
        unfold State.running
        rw [tasks_apply]
        exact hcard.trans hpermits
      · intro hnext other hother
        have hold := hunbroken (hopen hnext)
        rw [tasks_apply] at hother
        rcases List.mem_or_eq_of_mem_set hother with hother | rfl
        · exact hold other hother
        · refine hbroken (fun hevent => ?_) ?_ (hold task (List.mem_of_getElem? htask))
          · rw [hevent] at hpanic
            cases hpanic
          · by_contra hreturned
            have hclosed := MainPhase.closed_of_returned (by simpa using hreturned)
            rw [hopen hnext] at hclosed
            cases hclosed
  | acquirePermit =>
      simp only [step] at h
      split at h
      · split at h
        case isTrue hfree =>
          cases h
          constructor
          · show List.countP _ (state.tasks ++ _) ≤ _
            rw [List.countP_append]
            exact hfree
          · intro hnext task htask
            rcases List.mem_append.mp htask with hold | hnew
            · exact hunbroken (hopen hnext) task hold
            · rw [List.mem_singleton.mp hnew]
              rfl
        case isFalse => cases h
      · cases h
  | readLine =>
      simp only [step] at h
      split at h <;> cases h
      have htasks : (readLine setup state).tasks = state.tasks := by
        unfold readLine State.skipUrl
        simp only
        repeat' split
        all_goals rfl
      unfold State.running
      rw [htasks]
      exact ⟨hpermits, fun hnext => hunbroken (hopen hnext)⟩
  | _ =>
      simp only [step] at h
      repeat' split at h
      all_goals cases h
      all_goals exact ⟨hpermits, fun hnext => hunbroken (hopen hnext)⟩

/-- A steady step keeps the bounds. -/
theorem Bounded.step (h : Bounded setup totalUrls state) (hsteady : Steady state event)
    (hnext : Scan.step setup state event = some next) : Bounded setup totalUrls next := by
  obtain ⟨hok, hpanic⟩ := hsteady
  have hsound := (counter_ledger_step hok hnext).sound h.sound
  obtain ⟨hreadable, htotal⟩ := input_step h.readable hnext
  obtain ⟨hpermits, hunbroken⟩ := tasks_step h.permits h.unbroken hpanic hnext
  refine ⟨hsound, hreadable, htotal.trans h.total, hpermits, hunbroken, ?_⟩
  cases hclosed : next.main.closed with
  | false => exact active_of_open hsound hpermits hclosed (hunbroken hclosed)
  | true =>
      have hdone := Counters.done_le (countersOf_step hnext)
      have hattempted : (countersOf next).attempted = (countersOf state).attempted :=
        congrArg Multiset.card (attempted_step hnext hclosed)
      have hactive := h.active
      omega

end Bounds

/-- The bounds hold at the start. -/
theorem bounded_init (setup : Setup) {input : List (Option String)}
    (hreadable : ∀ line ∈ input, line.isSome) :
    Bounded setup (countUrls input) (.init input) where
  sound := sound_init counterView input rfl
  readable := hreadable
  total := by
    show 0 + 0 + countUrls input ≤ countUrls input
    omega
  permits := Nat.zero_le _
  unbroken _ := List.forall_mem_nil _
  active := Nat.zero_le _

/-! ## The client -/

/-- The values of a client are of the past, and each counter was loaded after those before it. The
counters at the load of the first one had no more URLs active than there are permits. -/
structure Reader.Follows (reader : Reader) (totalUrls permits : ℕ) (now : Counters) : Prop where
  loaded : reader.loaded ≤ now
  start : reader.next ≠ .attempted → ∃ start ≤ now, reader.loaded.attempted = start.attempted ∧
    start.attempted ≤ start.done + permits ∧
    (reader.next ≠ .successful → start.successful ≤ reader.loaded.successful) ∧
    (reader.next = .skipped → start.failed ≤ reader.loaded.failed)
  shown : ∀ snapshot ∈ reader.shown, snapshot ≤ reader.loaded ∧
    snapshot.attempted ≤ totalUrls ∧ snapshot.done ≤ totalUrls ∧
    snapshot.attempted ≤ snapshot.done + permits
  ordered : reader.shown.Pairwise (· ≥ ·)

namespace Reader.Follows

variable {reader : Reader} {totalUrls permits : ℕ} {now later : Counters}

/-- The reader follows from the start. -/
theorem init (totalUrls permits : ℕ) (now : Counters) :
    Reader.init.Follows totalUrls permits now where
  loaded := ⟨Nat.zero_le _, Nat.zero_le _, Nat.zero_le _, Nat.zero_le _⟩
  start h := absurd rfl h
  shown := List.forall_mem_nil _
  ordered := List.Pairwise.nil

/-- The counters grow. -/
theorem mono (h : reader.Follows totalUrls permits now) (hle : now ≤ later) :
    reader.Follows totalUrls permits later where
  loaded := h.loaded.trans hle
  start hnext := by
    obtain ⟨start, hstart, hrest⟩ := h.start hnext
    exact ⟨start, hstart.trans hle, hrest⟩
  shown := h.shown
  ordered := h.ordered

/-- A value that is loaded is at least the one that it replaces. -/
theorem shown_mono (h : reader.Follows totalUrls permits now) {loaded : Counters}
    (hle : reader.loaded ≤ loaded) :
    ∀ snapshot ∈ reader.shown, snapshot ≤ loaded ∧ snapshot.attempted ≤ totalUrls ∧
      snapshot.done ≤ totalUrls ∧ snapshot.attempted ≤ snapshot.done + permits := by
  intro snapshot hsnapshot
  obtain ⟨hloaded, hrest⟩ := h.shown snapshot hsnapshot
  exact ⟨hloaded.trans hle, hrest⟩

/-- One load. -/
theorem load (h : reader.Follows totalUrls permits now) (hdone : now.done ≤ now.attempted)
    (htotal : now.attempted ≤ totalUrls) (hactive : now.attempted ≤ now.done + permits) :
    (reader.load now).Follows totalUrls permits now := by
  obtain ⟨hattempted, hsuccessful, hfailed, hskipped⟩ := h.loaded
  unfold Reader.load
  cases hnext : reader.next with
  | attempted =>
      have hle : reader.loaded ≤ { reader.loaded with attempted := now.attempted } :=
        ⟨hattempted, le_rfl, le_rfl, le_rfl⟩
      exact ⟨⟨le_rfl, hsuccessful, hfailed, hskipped⟩,
        fun _ => ⟨now, le_refl now, rfl, hactive, fun hne => absurd rfl hne, nofun⟩,
        h.shown_mono hle, h.ordered⟩
  | successful =>
      have hle : reader.loaded ≤ { reader.loaded with successful := now.successful } :=
        ⟨le_rfl, hsuccessful, le_rfl, le_rfl⟩
      obtain ⟨start, hstart, hfirst, hbound, -, -⟩ := h.start (by simp [hnext])
      exact ⟨⟨hattempted, le_rfl, hfailed, hskipped⟩,
        fun _ => ⟨start, hstart, hfirst, hbound, fun _ => hstart.2.1, nofun⟩,
        h.shown_mono hle, h.ordered⟩
  | failed =>
      have hle : reader.loaded ≤ { reader.loaded with failed := now.failed } :=
        ⟨le_rfl, le_rfl, hfailed, le_rfl⟩
      obtain ⟨start, hstart, hfirst, hbound, hsecond, -⟩ := h.start (by simp [hnext])
      exact ⟨⟨hattempted, hsuccessful, le_rfl, hskipped⟩,
        fun _ => ⟨start, hstart, hfirst, hbound, fun _ => hsecond (by simp [hnext]),
          fun _ => hstart.2.2.1⟩,
        h.shown_mono hle, h.ordered⟩
  | skipped =>
      have hle : reader.loaded ≤ { reader.loaded with skipped := now.skipped } :=
        ⟨le_rfl, le_rfl, le_rfl, hskipped⟩
      have hnow : { reader.loaded with skipped := now.skipped } ≤ now :=
        ⟨hattempted, hsuccessful, hfailed, le_rfl⟩
      obtain ⟨start, hstart, hfirst, hbound, hsecond, hthird⟩ := h.start (by simp [hnext])
      have hdoneNow := Counters.done_le hnow
      have hdoneStart : start.done ≤
          Counters.done { reader.loaded with skipped := now.skipped } := by
        have hsuccessful := hsecond (by simp [hnext])
        have hfailed := hthird hnext
        have hskipped := hstart.2.2.2
        simp only [Counters.done]
        omega
      refine ⟨hnow, fun hne => absurd rfl hne, ?_, ?_⟩
      · refine List.forall_mem_cons.mpr ⟨⟨le_refl _, ?_, ?_, ?_⟩, h.shown_mono hle⟩
        · exact hattempted.trans htotal
        · exact hdoneNow.trans (hdone.trans htotal)
        · exact hfirst.trans_le (hbound.trans (Nat.add_le_add_right hdoneStart permits))
      · exact List.pairwise_cons.mpr
          ⟨fun snapshot hsnapshot => ((h.shown_mono hle) snapshot hsnapshot).1, h.ordered⟩

end Reader.Follows

/-! ## What is shown -/

/-- A snapshot shows no more URLs than there are and no more active ones than permits. Its numbers
add up to the total but for the URLs that were done while it was taken. -/
structure Consistent (setup : Setup) (snapshot : ProgressSnapshot) : Prop where
  attempted : snapshot.attempted ≤ snapshot.totalUrls
  finished : snapshot.finished ≤ snapshot.totalUrls
  active : snapshot.activeUrls ≤ setup.maxConcurrency
  sum : snapshot.finished + snapshot.activeUrls + snapshot.pendingUrls =
    snapshot.totalUrls + (snapshot.finished - snapshot.attempted)

/-- No number of the later snapshot is behind that of the earlier one. -/
structure Advances (earlier later : ProgressSnapshot) : Prop where
  attempted : earlier.attempted ≤ later.attempted
  successful : earlier.successful ≤ later.successful
  failed : earlier.failed ≤ later.failed
  skipped : earlier.skipped ≤ later.skipped
  finished : earlier.finished ≤ later.finished
  pending : later.pendingUrls ≤ earlier.pendingUrls

/-- The snapshots of a client, the first one first. -/
def snapshots (totalUrls : ℕ) (reader : Reader) : List ProgressSnapshot :=
  reader.shown.reverse.map (progressSnapshot totalUrls)

/-- Below the largest number nothing saturates. -/
theorem finished_eq (totalUrls : ℕ) {loaded : Counters} (hdone : loaded.done ≤ usizeMax) :
    (progressSnapshot totalUrls loaded).finished = loaded.done := by
  simp only [progressSnapshot, saturatingAdd, Counters.done] at hdone ⊢
  omega

/-- Counters in these bounds give a consistent snapshot. -/
theorem consistent_progressSnapshot {setup : Setup} {totalUrls : ℕ} {loaded : Counters}
    (hsize : totalUrls ≤ usizeMax) (hattempted : loaded.attempted ≤ totalUrls)
    (hdone : loaded.done ≤ totalUrls)
    (hactive : loaded.attempted ≤ loaded.done + setup.maxConcurrency) :
    Consistent setup (progressSnapshot totalUrls loaded) := by
  have hfinished := finished_eq totalUrls (hdone.trans hsize)
  have hshown : (progressSnapshot totalUrls loaded).activeUrls =
      loaded.attempted - (progressSnapshot totalUrls loaded).finished := rfl
  rw [hfinished] at hshown
  refine ⟨hattempted, hfinished.trans_le hdone, ?_, ?_⟩
  · omega
  · rw [hfinished, hshown]
    show _ + _ + (totalUrls - loaded.attempted) = totalUrls + (_ - loaded.attempted)
    omega

/-- A state that a run with a client can reach. -/
structure Reached (setup : Setup) (totalUrls : ℕ) (state : Watched) : Prop where
  bounded : Bounded setup totalUrls state.scan
  follows : state.reader.Follows totalUrls setup.maxConcurrency (countersOf state.scan)

/-- The steps of a run with a client that keep the bounds. -/
def WatchedOk (state : Watched) : Option Event → Prop
  | some event => Steady state.scan event
  | none => True

/-- A step keeps what is reached. -/
theorem reached_step {setup : Setup} {totalUrls : ℕ} (state : Watched) (event : Option Event)
    (next : Watched) (h : Reached setup totalUrls state) (hok : WatchedOk state event)
    (hnext : watchedStep setup state event = some next) : Reached setup totalUrls next := by
  cases event with
  | some event =>
      obtain ⟨scan, hscan, rfl⟩ := Option.map_eq_some_iff.mp hnext
      exact ⟨h.bounded.step hok hscan, h.follows.mono (countersOf_step hscan)⟩
  | none =>
      cases hnext
      have htotal := h.bounded.total
      refine ⟨h.bounded, h.follows.load (done_le_attempted h.bounded.sound) ?_ h.bounded.active⟩
      show state.scan.attempted.card ≤ totalUrls
      omega

instance (state : Watched) : (event : Option Event) → Decidable (WatchedOk state event)
  | some event => inferInstanceAs (Decidable (Steady state.scan event))
  | none => isTrue trivial

/-- A scan of two pages. The status is asked for while the first one is done and the second one has
just begun. -/
def askedEvents : List (Option Event) :=
  [some .nothingReady, some .readLine, some .acquirePermit, some (.task 0 .poll),
    some (.task 0 .admitted), some .nothingReady, none, some (.task 0 .commit),
    some (.task 0 .finishSuccess), some .readLine, none, none, some .acquirePermit, none]

end DomainStatus.StatusServer
