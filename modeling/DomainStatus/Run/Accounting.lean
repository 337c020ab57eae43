import DomainStatus.Lib.Ledger
import DomainStatus.Run.Scan

/-!
# Accounting of a scan run

The counters of a run as a ledger: the attempted URLs, those that a counter has, those that the
drain has taken over, and those that a task has still to count. `counter_ledger_step` says that the
run simulates the ledger as long as every step meets `CounterOk`, and `scan_counts_exact` concludes
that every attempted URL is then counted exactly once.

A step can fail to meet `CounterOk` in three ways: a task panics after it has counted its URL, the
registry at the deadline is not made of the URLs that are still to be counted, or a task counts its
URL while the drain counts it as abandoned.
-/

namespace DomainStatus.Scan

open InFlight Trace

/-! ## What tasks owe -/

/-- The URLs of the tasks whose phase owes something. -/
def owingUrls (owes : TaskPhase → Bool) (tasks : List Task) : Multiset String :=
  ((tasks.filter fun task => owes task.phase).map Task.url : List String)

variable {owes : TaskPhase → Bool}

/-- What one task contributes. -/
def owingUrl (owes : TaskPhase → Bool) (task : Task) : Multiset String :=
  if owes task.phase then {task.url} else 0

/-- A URL is owed if a task of it owes it. -/
theorem mem_owing_urls {tasks : List Task} {url : String} :
    url ∈ owingUrls owes tasks ↔ ∃ task ∈ tasks, owes task.phase = true ∧ task.url = url := by
  simp [owingUrls, and_assoc]

/-- What one more task owes. -/
theorem owing_urls_cons (task : Task) (tasks : List Task) :
    owingUrls owes (task :: tasks) = owingUrl owes task + owingUrls owes tasks := by
  unfold owingUrls owingUrl
  cases h : owes task.phase <;> simp [h]

/-- What two lists of tasks owe. -/
theorem owing_urls_append (first second : List Task) :
    owingUrls owes (first ++ second) = owingUrls owes first + owingUrls owes second := by
  simp [owingUrls]

/-- Changing the phase of one task changes its own contribution only. -/
theorem owing_urls_set (owes : TaskPhase → Bool) {tasks : List Task} {number : ℕ} {task : Task}
    (h : tasks[number]? = some task) :
    ∃ rest, owingUrls owes tasks = owingUrl owes task + rest ∧
      ∀ phase, owingUrls owes (tasks.set number { task with phase }) =
        owingUrl owes { task with phase } + rest := by
  induction tasks generalizing number with
  | nil => simp at h
  | cons first tasks ih =>
      cases number with
      | zero =>
          cases h
          exact ⟨owingUrls owes tasks, owing_urls_cons _ _, fun phase => owing_urls_cons _ _⟩
      | succ number =>
          obtain ⟨rest, hrest, hset⟩ := ih (by simpa using h)
          refine ⟨owingUrl owes first + rest, ?_, fun phase => ?_⟩
          · rw [owing_urls_cons, hrest]
            abel
          · rw [List.set_cons_succ, owing_urls_cons, hset phase]
            abel

/-- No task owes anything if no phase does. -/
theorem owing_urls_eq_zero {tasks : List Task} (h : ∀ task ∈ tasks, owes task.phase = false) :
    owingUrls owes tasks = 0 := by
  have hnil : (tasks.filter fun task => owes task.phase) = [] := by
    rw [List.filter_eq_nil_iff]
    intro task htask
    simp [h task htask]
  simp [owingUrls, hnil]

/-! ## Ledgers of a run -/

/-- The events of the main loop and of the finalisation, outside the deadline of the drain. -/
def Event.quiet : Event → Bool
  | task _ _ | deadline | recordAbandoned _ | recordAbandonedFails _ | abandonDone => false
  | _ => true

/-- A way to read a run as a ledger: what its counters and rows settle, what the drain has taken
over, and which phases of a task owe something, before and after the snapshot of the drain. -/
structure View where
  /-- The settled URLs, from the three counters, the added rows and the failure rows. -/
  settled : (successful failed skipped insertedUrls failureRows : Multiset String) →
    Multiset String
  pending : (abandoned left : Finset String) → Multiset String
  owes : (closed : Bool) → TaskPhase → Bool
  /-- The effects that settle the URL of their task. -/
  settles : Effect → Bool
  settled_skip : ∀ successful failed skipped insertedUrls failureRows url,
    settled successful failed (url ::ₘ skipped) insertedUrls failureRows =
      url ::ₘ settled successful failed skipped insertedUrls failureRows
  settled_apply : ∀ (domainOf : String → String) (state : State) url effect,
    settled (state.apply domainOf url effect).successful (state.apply domainOf url effect).failed
        (state.apply domainOf url effect).skipped (state.apply domainOf url effect).insertedUrls
        (state.apply domainOf url effect).failureRows =
      if settles effect then
        url ::ₘ settled state.successful state.failed state.skipped state.insertedUrls
          state.failureRows
      else settled state.successful state.failed state.skipped state.insertedUrls
        state.failureRows
  owes_spawned : owes false .spawned = true
  owes_reaped : ∀ closed, owes closed .reaped = false

namespace View

variable (view : View)

/-- The run as a ledger. -/
def ledger (state : State) : Ledger String where
  attempted := state.attempted
  settled := view.settled state.successful state.failed state.skipped state.insertedUrls
    state.failureRows
  pending :=
    match state.main with
    | .recording abandoned left => view.pending abandoned left
    | _ => 0
  owing := owingUrls (view.owes state.main.closed) state.tasks
  closed := state.main.closed

/-- An effect of a task changes nothing but the settled URLs. -/
theorem ledger_apply (domainOf : String → String) (state : State) (url : String)
    (effect : Effect) :
    view.ledger (state.apply domainOf url effect) =
      { view.ledger state with
        settled := if view.settles effect then url ::ₘ (view.ledger state).settled
          else (view.ledger state).settled } := by
  refine Ledger.ext ?_ (view.settled_apply domainOf state url effect) ?_ ?_ ?_
  all_goals
    cases effect with
    | statusRow inserted => cases inserted <;> rfl
    | _ => rfl

/-- The next line of the input admits no URL, or skips one. -/
theorem ledger_read_line {setup : Setup} {state : State} (h : state.main = .selecting) :
    (view.ledger state).Step (view.ledger (readLine setup state)) := by
  unfold readLine
  match heq : state.input with
  | [] => exact .of_eq (by simp [ledger, h, MainPhase.closed])
  | none :: _ =>
      simp only
      split <;> exact .of_eq (by simp [ledger, h, MainPhase.closed])
  | some line :: rest =>
      -- A skipped line is attempted and settled at once.
      have hskip : ∀ url, (view.ledger state).Step (view.ledger (State.skipUrl
          { state with input := rest, consecutiveErrors := 0, main := .reaping } url)) := by
        intro url
        have hstep : (view.ledger state).Step _ := .skip url
        simpa [ledger, State.skipUrl, h, MainPhase.closed, view.settled_skip] using hstep
      simp only
      split
      · exact .of_eq (by simp [ledger, h, MainPhase.closed])
      · split
        · exact hskip _
        · split
          · exact .of_eq (by simp [ledger, h, MainPhase.closed])
          · exact hskip _

/-- A permit admits the URL and gives it to a new task. -/
theorem ledger_acquire_permit {state : State} {url : String} (h : state.main = .permit url) :
    (view.ledger state).Step (view.ledger { state with
      main := .reaping
      attempted := url ::ₘ state.attempted
      tasks := state.tasks ++ [{ url, phase := .spawned }] }) := by
  have hstep : (view.ledger state).Step _ := .accept url
  have howing : owingUrls (view.owes false) (state.tasks ++ [{ url, phase := .spawned }]) =
      url ::ₘ owingUrls (view.owes false) state.tasks := by
    rw [owing_urls_append, owing_urls_cons]
    simp [owingUrl, owingUrls, view.owes_spawned, add_comm, Multiset.singleton_add]
  simpa [ledger, h, MainPhase.closed, howing] using hstep

/-- When all tasks are reaped, nobody owes anything. -/
theorem ledger_joined_all {state : State} (h : state.main = .draining)
    (hall : ∀ task ∈ state.tasks, task.phase = .reaped) :
    (view.ledger state).Step (view.ledger { state with main := .drained }) := by
  have hzero : ∀ closed, owingUrls (view.owes closed) state.tasks = 0 := fun closed =>
    owing_urls_eq_zero fun task htask => by rw [hall task htask, view.owes_reaped]
  have hstep : (view.ledger state).Step _ := .close (by simp [ledger, h, MainPhase.closed])
    (by simp [ledger, h]) (Multiset.zero_le _)
  simpa [ledger, h, MainPhase.closed, hzero] using hstep

/-- The events of the main loop and of the finalisation, outside the deadline of the drain. -/
theorem ledger_quiet {setup : Setup} {state next : State} {event : Event}
    (hquiet : event.quiet = true) (h : step setup state event = some next) :
    (view.ledger state).Step (view.ledger next) := by
  cases event with
  | interrupt =>
      cases h
      exact .idle
  | readLine =>
      simp only [step] at h
      split at h <;> cases h
      exact view.ledger_read_line ‹_›
  | acquirePermit =>
      simp only [step] at h
      split at h
      · split at h <;> cases h
        exact view.ledger_acquire_permit ‹_›
      · cases h
  | joinedAll =>
      simp only [step] at h
      split at h
      next hmain =>
        split at h
        case isTrue hall =>
          cases h
          exact view.ledger_joined_all hmain (by simpa using hall)
        case isFalse => cases h
      · cases h
  | seeCancel =>
      simp only [step] at h
      split at h
      · split at h <;> cases h
        exact .of_eq (by simp [ledger, MainPhase.closed, *])
      · split at h <;> cases h
        exact .of_eq (by simp [ledger, MainPhase.closed, *])
      · cases h
  | nothingReady | loadCounters | countStatusRows | countFailureRows =>
      simp only [step] at h
      split at h <;> cases h
      exact .of_eq (by simp [ledger, MainPhase.closed, *])
  | task | deadline | recordAbandoned | recordAbandonedFails | abandonDone => cases hquiet

end View

/-- What a step of a task makes of the state. -/
theorem step_task_inv {setup : Setup} {state next : State} {number : ℕ} {event : TaskEvent}
    (h : step setup state (.task number event) = some next) :
    ∃ task phase effect, state.tasks[number]? = some task ∧
      taskStep state.cancelled (decide (setup.domainOf task.url ∉ state.statusRows))
        state.main.joins state.main.returned task.phase event = some (phase, effect) ∧
      next = State.apply setup.domainOf
        { state with
          tasks := state.tasks.set number { task with phase }
          registry := State.guardStep state.registry task.url task.phase phase }
        task.url effect := by
  simp only [step] at h
  split at h
  · cases h
  next task htask =>
    split at h
    · cases h
    next phase effect hstep =>
      cases h
      exact ⟨task, phase, effect, htask, hstep, rfl⟩

/-- The deadline fires only before the drain has taken its snapshot. -/
theorem open_of_deadline {setup : Setup} {state next : State}
    (h : step setup state .deadline = some next) : state.main.closed = false := by
  simp only [step] at h
  split at h
  · simp [MainPhase.closed, *]
  · cases h

namespace View

variable (view : View)

/-- What a step of a task does to a ledger: it settles nothing and leaves what the task owes as it
is, it settles what the task owes, or it ends a task whose URL is not needed any more. -/
inductive TaskCase (state : State) (task : Task) (phase : TaskPhase) (effect : Effect) : Prop
  | idle (hsettles : view.settles effect = false)
      (howes : view.owes state.main.closed phase = view.owes state.main.closed task.phase)
  | settle (hsettles : view.settles effect = true)
      (howes : view.owes state.main.closed task.phase = true)
      (hdone : view.owes state.main.closed phase = false)
      (howed : state.main.closed = true → task.url ∈ (view.ledger state).owed)
  | lose (hsettles : view.settles effect = false) (hclosed : state.main.closed = true)
      (howes : view.owes state.main.closed task.phase = true)
      (hdone : view.owes state.main.closed phase = false)
      (howed : (view.ledger state).owed ≤ (view.ledger state).owing.erase task.url)

/-- A step of a task that falls under one of the cases is a step of the ledger. -/
theorem ledger_task {setup : Setup} {state next : State} {number : ℕ} {event : TaskEvent}
    (hcases : ∀ task ∈ state.tasks[number]?, ∀ phase effect,
      taskStep state.cancelled (decide (setup.domainOf task.url ∉ state.statusRows))
        state.main.joins state.main.returned task.phase event = some (phase, effect) →
      view.TaskCase state task phase effect)
    (h : step setup state (.task number event) = some next) :
    (view.ledger state).Step (view.ledger next) := by
  obtain ⟨task, phase, effect, htask, hstep, rfl⟩ := step_task_inv h
  obtain ⟨rest, howing, hset⟩ := owing_urls_set (view.owes state.main.closed) htask
  have hafter : view.ledger { state with
      tasks := state.tasks.set number { task with phase }
      registry := State.guardStep state.registry task.url task.phase phase } =
      { view.ledger state with
        owing := owingUrl (view.owes state.main.closed) { task with phase } + rest } :=
    Ledger.ext rfl rfl rfl (hset phase) rfl
  rw [ledger_apply, hafter]
  cases hcases task htask phase effect hstep with
  | idle hsettles howes =>
      have hsame : owingUrl (view.owes state.main.closed) { task with phase } + rest =
          (view.ledger state).owing := by
        simp [owingUrl, howes, ledger, howing]
      exact .of_eq (by simp [hsettles, hsame])
  | settle hsettles howes hdone howed =>
      have hcons : (view.ledger state).owing = task.url ::ₘ rest := by
        simp [ledger, howing, owingUrl, howes]
      simpa [hsettles, owingUrl, hdone] using Ledger.Step.settle hcons howed
  | lose hsettles hclosed howes hdone howed =>
      have hcons : (view.ledger state).owing = task.url ::ₘ rest := by
        simp [ledger, howing, owingUrl, howes]
      rw [hcons, Multiset.erase_cons_head] at howed
      simpa [hsettles, owingUrl, hdone] using Ledger.Step.lose hcons hclosed howed

/-- The deadline is a step of the ledger if the registry is made of URLs that a task owes, and the
tasks owe the same after it. -/
theorem ledger_deadline {setup : Setup} {state next : State}
    (hpending : ∀ abandoned, view.pending abandoned abandoned = abandoned.val)
    (hregistry : state.registry.val ≤ owingUrls (view.owes false) state.tasks)
    (howing : owingUrls (view.owes true) state.tasks = owingUrls (view.owes false) state.tasks)
    (h : step setup state .deadline = some next) :
    (view.ledger state).Step (view.ledger next) := by
  simp only [step] at h
  split at h
  next hmain =>
    have hopen : (view.ledger state).closed = false := by simp [ledger, hmain, MainPhase.closed]
    have hnone : (view.ledger state).pending = 0 := by simp [ledger, hmain]
    have hsnapshot : state.registry.val ≤ (view.ledger state).owing := by
      simpa [ledger, hmain, MainPhase.closed] using hregistry
    have hstep := Ledger.Step.close hopen hnone hsnapshot
    split at h
    case isTrue hempty =>
      cases h
      simpa [ledger, hmain, MainPhase.closed, howing, hempty] using hstep
    case isFalse =>
      cases h
      simpa [ledger, hmain, MainPhase.closed, howing, hpending] using hstep
  · cases h

end View

/-! ## The ledger of the counters -/

/-- The effect bumps one of the three counters. -/
def Effect.counts : Effect → Bool
  | successful | failed | skipped => true
  | _ => false

/-- The URL of a task in this phase has still to be counted. Before the drain has its snapshot, a
broken task is counted when it is reaped. -/
def owesCount (closed : Bool) : TaskPhase → Bool
  | .broken early => !early && !closed
  | .reaped => false
  | phase => !phase.hasCounted

/-- The counters of a run: each of them settles the URL that it counts, and the drain takes over the
whole snapshot until it counts it. -/
def counterView : View where
  settled successful failed skipped _ _ := successful + failed + skipped
  pending abandoned _ := abandoned.val
  owes := owesCount
  settles := Effect.counts
  settled_skip := by simp
  settled_apply domainOf state url effect := by
    cases effect with
    | statusRow inserted => cases inserted <;> rfl
    | none | failureRow => rfl
    | successful | failed | skipped => simp [State.apply, Effect.counts]
  owes_spawned := rfl
  owes_reaped _ := rfl

/-- The event lets a task in this phase count its URL. -/
def countsUrl : TaskPhase → TaskEvent → Bool
  | _, .finishSkipped | _, .finishSuccess | _, .fail | _, .timeout => true
  | .cancelling true, .resume => true
  | _, _ => false

/-- The event ends a task without a return. -/
def TaskEvent.breaks : TaskEvent → Bool
  | .panic | .abort => true
  | _ => false

/-- The steps that keep the counters exact. A task that has counted its URL is not reaped as a join
error. At the deadline, the registry is made of URLs that are still to be counted, and no panicked
task is left to be reaped. After that, a task counts its URL only if the URL is still owed, and a
task that has not counted its URL breaks only if the other tasks can settle what is owed. -/
def CounterOk (state : State) : Event → Prop
  | .task number event =>
      ∀ task ∈ state.tasks[number]?,
        (event = .reap → task.phase ≠ .broken true) ∧
        (state.main.closed = true →
          (countsUrl task.phase event = true → task.url ∈ (counterView.ledger state).owed) ∧
          (event.breaks = true → task.phase.hasCounted = false →
            (counterView.ledger state).owed ≤ (counterView.ledger state).owing.erase task.url))
  | .deadline =>
      state.registry.val ≤ (counterView.ledger state).owing ∧
        ∀ task ∈ state.tasks, task.phase ≠ .broken false
  | _ => True

instance (state : State) : (event : Event) → Decidable (CounterOk state event)
  | .task _ _ | .deadline => by
      unfold CounterOk
      infer_instance
  | .interrupt | .nothingReady | .readLine | .seeCancel | .acquirePermit | .joinedAll
  | .recordAbandoned _ | .recordAbandonedFails _ | .abandonDone | .loadCounters
  | .countStatusRows | .countFailureRows => isTrue trivial

/-- A step of `process_url_task` counts the URL exactly if the URL has not been counted before and
is counted after it. -/
theorem task_progress_counts {cancelled isNewDomain closed : Bool} {phase next : TaskPhase}
    {event : TaskEvent} {effect : Effect}
    (h : taskProgress cancelled isNewDomain phase event = some (next, effect)) :
    (effect.counts = false ∧ owesCount closed next = owesCount closed phase) ∨
    (effect.counts = true ∧ owesCount closed phase = true ∧ owesCount closed next = false ∧
      countsUrl phase event = true) := by
  unfold taskProgress at h
  split at h
  all_goals
    try split at h
    all_goals
      cases h
      try simp [Effect.counts, owesCount, countsUrl, TaskPhase.hasCounted]

/-- A step of a task leaves what it owes as it is, or counts its URL, or ends a task that has not
counted its URL after the snapshot, or reaps a task that has. -/
theorem task_step_counts {cancelled isNewDomain reaping aborting closed : Bool}
    {phase next : TaskPhase} {event : TaskEvent} {effect : Effect}
    (hreaping : reaping = true → closed = false) (haborting : aborting = true → closed = true)
    (h : taskStep cancelled isNewDomain reaping aborting phase event = some (next, effect)) :
    (effect.counts = false ∧ owesCount closed next = owesCount closed phase) ∨
    (effect.counts = true ∧ owesCount closed phase = true ∧ owesCount closed next = false ∧
      (closed = true → countsUrl phase event = true)) ∨
    (effect.counts = false ∧ closed = true ∧ owesCount closed phase = true ∧
      owesCount closed next = false ∧ event.breaks = true ∧ phase.hasCounted = false) ∨
    (phase = .broken true ∧ event = .reap) := by
  cases event with
  | panic =>
      cases phase <;> simp [taskStep, TaskPhase.running] at h
      all_goals
        obtain ⟨rfl, rfl⟩ := h
        cases closed <;> simp [Effect.counts, owesCount, TaskPhase.hasCounted, TaskEvent.breaks]
  | abort =>
      cases phase <;> simp [taskStep, TaskPhase.running] at h
      all_goals
        obtain ⟨haborts, rfl, rfl⟩ := h
        simp [haborting haborts, Effect.counts, owesCount, TaskPhase.hasCounted, TaskEvent.breaks]
  | reap =>
      cases phase <;> simp [taskStep] at h
      case finished =>
        obtain ⟨-, rfl, rfl⟩ := h
        exact Or.inl ⟨rfl, rfl⟩
      case broken early =>
        obtain ⟨hreaps, rfl, rfl⟩ := h
        cases early <;> simp [hreaping hreaps, Effect.counts, owesCount]
  | _ =>
      rcases task_progress_counts h with hsame | ⟨hcounts, howes, hdone, hevent⟩
      · exact Or.inl hsame
      · exact Or.inr (Or.inl ⟨hcounts, howes, hdone, fun _ => hevent⟩)

/-- The main loop joins tasks only before the drain has taken its snapshot. -/
theorem MainPhase.closed_of_joins {main : MainPhase} (h : main.joins = true) :
    main.closed = false := by
  cases main <;> simp_all [joins, closed]

/-- A drain that has returned has taken its snapshot or found no task left. -/
theorem MainPhase.closed_of_returned {main : MainPhase} (h : main.returned = true) :
    main.closed = true := by
  cases main <;> simp_all [returned, closed]

/-- The tasks owe the same before and after the snapshot unless a panicked task was not reaped. -/
theorem owing_count_closed {tasks : List Task}
    (h : ∀ task ∈ tasks, task.phase ≠ .broken false) :
    owingUrls (owesCount true) tasks = owingUrls (owesCount false) tasks := by
  have hfilter : (tasks.filter fun task => owesCount true task.phase) =
      tasks.filter fun task => owesCount false task.phase := by
    refine List.filter_congr fun task htask => ?_
    have hphase := h task htask
    cases hcase : task.phase with
    | broken early => cases early <;> simp_all [owesCount]
    | _ => rfl
  simp only [owingUrls, hfilter]

/-- The drain counts its snapshot when it has written its rows. -/
theorem counter_ledger_recording {setup : Setup} {state next : State} {event : Event}
    (hevent : (∃ url, event = .recordAbandoned url ∨ event = .recordAbandonedFails url) ∨
      event = .abandonDone)
    (h : step setup state event = some next) :
    (counterView.ledger state).Step (counterView.ledger next) := by
  rcases hevent with ⟨url, rfl | rfl⟩ | rfl
  · simp only [step] at h
    split at h
    · split at h <;> cases h
      exact .of_eq (by simp [View.ledger, counterView, MainPhase.closed, *])
    · cases h
  · simp only [step] at h
    split at h
    · split at h <;> cases h
      exact .of_eq (by simp [View.ledger, counterView, MainPhase.closed, *])
    · cases h
  · simp only [step] at h
    split at h
    next abandoned left hmain =>
      split at h <;> cases h
      have hpending : (counterView.ledger state).pending = abandoned.val + 0 := by
        simp [View.ledger, counterView, hmain]
      have hstep := Ledger.Step.collect hpending
      have hsettled : state.successful + (abandoned.val + state.failed) + state.skipped =
          abandoned.val + (state.successful + state.failed + state.skipped) := by abel
      simpa [View.ledger, counterView, hmain, MainPhase.closed, hsettled] using hstep
    · cases h

/-- As long as its steps meet the condition, a run is a run of the ledger of the counters. -/
theorem counter_ledger_step {setup : Setup} {state next : State} {event : Event}
    (hok : CounterOk state event) (h : step setup state event = some next) :
    (counterView.ledger state).Step (counterView.ledger next) := by
  cases event with
  | task number event =>
      refine counterView.ledger_task (fun task htask phase effect hstep => ?_) h
      obtain ⟨hreap, hclosed⟩ := hok task htask
      rcases task_step_counts MainPhase.closed_of_joins MainPhase.closed_of_returned hstep with
        ⟨hcounts, hsame⟩ | ⟨hcounts, howes, hdone, hevent⟩ |
        ⟨hcounts, hshut, howes, hdone, hbreaks, hfirst⟩ | ⟨hbroken, hevent⟩
      · exact .idle hcounts hsame
      · exact .settle hcounts howes hdone fun hshut => (hclosed hshut).1 (hevent hshut)
      · exact .lose hcounts hshut howes hdone ((hclosed hshut).2 hbreaks hfirst)
      · exact absurd hbroken (hreap hevent)
  | deadline =>
      obtain ⟨hregistry, hreaped⟩ := hok
      simp only [View.ledger, open_of_deadline h] at hregistry
      exact counterView.ledger_deadline (fun _ => rfl) hregistry (owing_count_closed hreaped) h
  | recordAbandoned url =>
      exact counter_ledger_recording (Or.inl ⟨url, Or.inl rfl⟩) h
  | recordAbandonedFails url =>
      exact counter_ledger_recording (Or.inl ⟨url, Or.inr rfl⟩) h
  | abandonDone => exact counter_ledger_recording (Or.inr rfl) h
  | _ => exact counterView.ledger_quiet rfl h

/-! ## Whole runs -/

/-- The drain has returned and no task is running. -/
def Ended (state : State) : Prop :=
  state.main.returned = true ∧ ∀ task ∈ state.tasks, task.phase.running = false

instance (state : State) : Decidable (Ended state) :=
  inferInstanceAs (Decidable (_ ∧ _))

/-- The ledger is sound at the start. -/
theorem sound_init (view : View) (input : List (Option String))
    (hnone : view.settled 0 0 0 0 0 = 0) : (view.ledger (.init input)).Sound :=
  Ledger.sound_of_eq 0 (by simp [View.ledger, State.init, hnone]) (Multiset.zero_le _)
    fun _ => rfl

/-- An ended run has nothing pending. -/
theorem Ended.pending_eq_zero {state : State} (h : Ended state) (view : View) :
    (view.ledger state).pending = 0 := by
  cases hmain : state.main <;> simp_all [Ended, View.ledger, MainPhase.returned]

/-- In every run whose steps all meet the condition, each attempted URL is counted in exactly one of
the three counters once the drain has returned and no task is running. -/
theorem scan_counts_exact (setup : Setup) (input : List (Option String)) (events : List Event)
    (final : State) (hrun : runTrace (step setup) (.init input) events = some final)
    (hok : Along (step setup) CounterOk (.init input) events) (hended : Ended final) :
    final.attempted = final.successful + final.failed + final.skipped ∧
      final.successful.card + final.failed.card + final.skipped.card = final.attempted.card := by
  have hsound : (counterView.ledger final).Sound :=
    invariant_along (fun _ _ _ hsound hstep hnext => (counter_ledger_step hstep hnext).sound hsound)
      (sound_init counterView input rfl) hok hrun
  have howing : (counterView.ledger final).owing = 0 := by
    refine owing_urls_eq_zero fun task htask => ?_
    have hphase := hended.2 task htask
    have hclosed := MainPhase.closed_of_returned hended.1
    cases hcase : task.phase <;>
      simp_all [counterView, owesCount, TaskPhase.running, TaskPhase.hasCounted]
  have hcounts : final.attempted = final.successful + final.failed + final.skipped :=
    hsound.settled_eq howing (hended.pending_eq_zero counterView)
  exact ⟨hcounts, by rw [hcounts, Multiset.card_add, Multiset.card_add]⟩

/-- Every line is its own URL, and every URL has its own row. -/
def exampleSetup : Setup where
  validateAndNormalizeUrl := some
  isSafe _ := true
  domainOf url := url
  maxConcurrency := 2

/-- One task succeeds and another panics before it has counted its URL. -/
def settledEvents : List Event :=
  [.nothingReady, .readLine, .acquirePermit, .nothingReady, .readLine, .acquirePermit,
    .nothingReady, .readLine, .task 0 .poll, .task 0 .admitted, .task 1 .poll, .task 0 .commit,
    .task 1 .panic, .task 0 .finishSuccess, .task 0 .return, .task 1 .reap, .task 0 .reap,
    .joinedAll]

/-- Both URLs of the example are counted once. -/
theorem scan_counts_exact_example :
    ∃ final, runTrace (step exampleSetup)
        (.init [some "https://a.test/", some "https://b.test/"]) settledEvents = some final ∧
      final.attempted.card = 2 ∧
      final.attempted = final.successful + final.failed + final.skipped := by
  have hended : ∀ final ∈ runTrace (step exampleSetup)
      (.init [some "https://a.test/", some "https://b.test/"]) settledEvents,
      Ended final ∧ final.attempted.card = 2 := by
    decide +kernel
  obtain ⟨final, hrun⟩ := Option.isSome_iff_exists.mp
    (show (runTrace (step exampleSetup)
      (.init [some "https://a.test/", some "https://b.test/"]) settledEvents).isSome by
        decide +kernel)
  exact ⟨final, hrun, (hended final hrun).2,
    (scan_counts_exact exampleSetup _ settledEvents final hrun (by decide +kernel)
      (hended final hrun).1).1⟩

/-- The only task succeeds while the drain writes the row for it as an abandoned task. -/
def doubleCountEvents : List Event :=
  [.nothingReady, .readLine, .acquirePermit, .nothingReady, .readLine, .task 0 .poll,
    .task 0 .admitted, .task 0 .commit, .deadline, .task 0 .finishSuccess, .task 0 .return,
    .recordAbandoned "https://a.test/", .abandonDone]

/-- The URL is counted as a success by its task and as a failure by the drain. -/
theorem scan_counts_abandoned_twice :
    ¬ ∀ (setup : Setup) (input : List (Option String)) (events : List Event) (final : State),
      runTrace (step setup) (.init input) events = some final → Ended final →
        final.successful.card + final.failed.card + final.skipped.card =
          final.attempted.card := by
  intro h
  have hfinal : ∀ final ∈ runTrace (step exampleSetup) (.init [some "https://a.test/"])
      doubleCountEvents, Ended final ∧
        final.successful.card + final.failed.card + final.skipped.card ≠
          final.attempted.card := by
    decide +kernel
  obtain ⟨final, hrun⟩ := Option.isSome_iff_exists.mp
    (show (runTrace (step exampleSetup) (.init [some "https://a.test/"])
      doubleCountEvents).isSome by decide +kernel)
  obtain ⟨hended, hne⟩ := hfinal final hrun
  exact hne (h exampleSetup _ doubleCountEvents final hrun hended)

end DomainStatus.Scan
