import DomainStatus.Run.Accounting

/-!
# Stored facts of a scan run

The rows that a run stores, and the skips that it counts, as a ledger: a URL is settled by a new row
of results, by a failure row, or by a skip. `fact_ledger_step` says that the run simulates the
ledger as long as every step meets `FactOk`, and `scan_facts_partition` concludes that the counts
that `persist_run_counts` writes add up.

A step can fail to meet `FactOk` because a task is cancelled or times out after it has committed a
new row, because a task that has stored nothing panics, and in the ways in which the drain and a
task can both answer for one URL.
-/

namespace DomainStatus.Scan

open InFlight Trace

/-- The effect stores a fact about the URL. -/
def Effect.storesFact : Effect → Bool
  | skipped | failureRow | statusRow true => true
  | _ => false

/-- A task in this phase has stored no fact about its URL. -/
def owesFact : TaskPhase → Bool
  | .spawned | .waiting | .processing | .committed false | .cancelling false | .failing false =>
      true
  | _ => false

/-- The stored facts of a run: the drain takes over the part of its snapshot that it has written no
row for. -/
def factView : View where
  settled _ _ skipped insertedUrls failureRows := insertedUrls + failureRows + skipped
  pending _ left := left.val
  owes _ := owesFact
  settles := Effect.storesFact
  settled_skip := by simp
  settled_apply domainOf state url effect := by
    cases effect with
    | statusRow inserted => cases inserted <;> simp [State.apply, Effect.storesFact]
    | none | successful | failed => rfl
    | skipped | failureRow => simp [State.apply, Effect.storesFact]
  owes_spawned := rfl
  owes_reaped _ := rfl

/-- The event lets a task in this phase store a fact. -/
def storesFact (isNewDomain : Bool) : TaskPhase → TaskEvent → Bool
  | _, .finishSkipped | _, .recordRow | .committed false, .finishSuccess => true
  | _, .commit => isNewDomain
  | _, _ => false

/-- The steps that keep the stored facts exact. No write of a failure row fails. A task that has
committed a new row is not cancelled and does not time out. A task that has stored no fact breaks
only after the snapshot, and only if the other tasks can settle what is owed. At the deadline, the
registry is made of URLs without a fact, and after it a task stores a fact only if its URL is still
owed. When the counters are read, no running task has still to store a fact that is owed, and the
counters fit in 31 bits. -/
def FactOk (setup : Setup) (state : State) : Event → Prop
  | .task number event =>
      ∀ task ∈ state.tasks[number]?,
        event ≠ .recordFails ∧
        (task.phase = .committed true → event ≠ .cancelSeen ∧ event ≠ .timeout) ∧
        (event.breaks = true → owesFact task.phase = true →
          state.main.closed = true ∧
            (factView.ledger state).owed ≤ (factView.ledger state).owing.erase task.url) ∧
        (state.main.closed = true →
          storesFact (decide (setup.domainOf task.url ∉ state.statusRows)) task.phase event =
            true → task.url ∈ (factView.ledger state).owed)
  | .deadline => state.registry.val ≤ (factView.ledger state).owing
  | .recordAbandonedFails _ => False
  | .loadCounters =>
      (∀ task ∈ state.tasks, owesFact task.phase = true →
        task.url ∉ (factView.ledger state).owed) ∧
      state.attempted.card < 2 ^ 31
  | _ => True

instance (setup : Setup) (state : State) : (event : Event) → Decidable (FactOk setup state event)
  | .task _ _ | .deadline | .loadCounters => by
      unfold FactOk
      infer_instance
  | .recordAbandonedFails _ => isFalse id
  | .interrupt | .nothingReady | .readLine | .seeCancel | .acquirePermit | .joinedAll
  | .recordAbandoned _ | .abandonDone | .countStatusRows | .countFailureRows => isTrue trivial

/-! ## One step -/

/-- A step of `process_url_task` without a failed write, and without an end of a task that has
committed a new row, stores a fact exactly if the task has stored none before and one after it. -/
theorem task_progress_facts {cancelled isNewDomain : Bool} {phase next : TaskPhase}
    {event : TaskEvent} {effect : Effect} (hwrite : event ≠ .recordFails)
    (hcommitted : phase = .committed true → event ≠ .cancelSeen ∧ event ≠ .timeout)
    (h : taskProgress cancelled isNewDomain phase event = some (next, effect)) :
    (effect.storesFact = false ∧ owesFact next = owesFact phase) ∨
    (effect.storesFact = true ∧ owesFact phase = true ∧ owesFact next = false ∧
      storesFact isNewDomain phase event = true) := by
  cases phase with
  | committed inserted =>
      cases event <;> simp only [taskProgress, reduceCtorEq] at h
      case cancelSeen =>
        split at h <;> cases h
        cases inserted <;> simp_all [Effect.storesFact, owesFact]
      case timeout =>
        cases h
        cases inserted <;> simp_all [Effect.storesFact, owesFact]
      case finishSuccess =>
        cases h
        cases inserted <;> simp [Effect.storesFact, owesFact, storesFact]
  | _ =>
      unfold taskProgress at h
      split at h
      all_goals
        try split at h
        all_goals
          cases h
          try cases isNewDomain
          all_goals
            try simp_all [Effect.storesFact, owesFact, storesFact]

/-- An end of a task changes no fact, and a broken task owes none any more. -/
theorem task_break_facts {cancelled isNewDomain reaping aborting : Bool} {phase next : TaskPhase}
    {event : TaskEvent} {effect : Effect} (hevent : event.breaks = true ∨ event = .reap)
    (h : taskStep cancelled isNewDomain reaping aborting phase event = some (next, effect)) :
    effect.storesFact = false ∧ owesFact next = false ∧
      (event = .reap → owesFact phase = false) := by
  cases event with
  | panic =>
      simp only [taskStep] at h
      split at h <;> cases h
      simp [Effect.storesFact, owesFact]
  | abort =>
      simp only [taskStep] at h
      split at h <;> cases h
      simp [Effect.storesFact, owesFact]
  | reap =>
      simp only [taskStep] at h
      split at h
      · split at h <;> cases h
        simp [Effect.storesFact, owesFact]
      · split at h <;> cases h
        simp [Effect.storesFact, owesFact]
      · cases h
  | _ => simp [TaskEvent.breaks] at hevent

/-- Every other event is a step of `process_url_task`. -/
theorem task_progress_of_step {cancelled isNewDomain reaping aborting : Bool}
    {phase next : TaskPhase} {event : TaskEvent} {effect : Effect}
    (hevent : ¬ (event.breaks = true ∨ event = .reap))
    (h : taskStep cancelled isNewDomain reaping aborting phase event = some (next, effect)) :
    taskProgress cancelled isNewDomain phase event = some (next, effect) := by
  cases event <;> simp_all [taskStep, TaskEvent.breaks]

/-- A step of a task that meets the condition falls under one of the cases of the ledger. -/
theorem fact_task_case {setup : Setup} {state : State} {number : ℕ} {task : Task}
    {phase : TaskPhase} {event : TaskEvent} {effect : Effect}
    (hok : FactOk setup state (.task number event)) (htask : state.tasks[number]? = some task)
    (h : taskStep state.cancelled (decide (setup.domainOf task.url ∉ state.statusRows))
      state.main.joins state.main.returned task.phase event = some (phase, effect)) :
    factView.TaskCase state task phase effect := by
  obtain ⟨hwrite, hcommitted, hbreaks, hclosed⟩ := hok task htask
  by_cases hevent : event.breaks = true ∨ event = .reap
  · obtain ⟨hstores, hdone, hreap⟩ := task_break_facts hevent h
    cases howes : owesFact task.phase with
    | false => exact .idle hstores (hdone.trans howes.symm)
    | true =>
        rcases hevent with hevent | hevent
        · obtain ⟨hshut, howed⟩ := hbreaks hevent howes
          exact .lose hstores hshut howes hdone howed
        · simp [hreap hevent] at howes
  · rcases task_progress_facts hwrite hcommitted (task_progress_of_step hevent h) with
      ⟨hstores, hsame⟩ | ⟨hstores, howes, hdone, hevent⟩
    · exact .idle hstores hsame
    · exact .settle hstores howes hdone fun hshut => hclosed hshut hevent

/-- The drain settles each URL of its snapshot with a failure row. -/
theorem fact_ledger_record {setup : Setup} {state next : State} {url : String}
    (h : step setup state (.recordAbandoned url) = some next) :
    (factView.ledger state).Step (factView.ledger next) := by
  simp only [step] at h
  split at h
  next abandoned left hmain =>
    split at h
    case isTrue hleft =>
      cases h
      have hpending : (factView.ledger state).pending = {url} + (left.erase url).val := by
        simp only [View.ledger, factView, hmain, Multiset.singleton_add, Finset.erase_val]
        exact (Multiset.cons_erase hleft).symm
      have hstep := Ledger.Step.collect hpending
      simpa [View.ledger, factView, hmain, MainPhase.closed] using hstep
    case isFalse => cases h
  · cases h

/-- As long as its steps meet the condition, a run is a run of the ledger of the stored facts. -/
theorem fact_ledger_step {setup : Setup} {state next : State} {event : Event}
    (hok : FactOk setup state event) (h : step setup state event = some next) :
    (factView.ledger state).Step (factView.ledger next) := by
  cases event with
  | task number event =>
      exact factView.ledger_task (fun task htask phase effect hstep =>
        fact_task_case hok htask hstep) h
  | deadline =>
      simp only [FactOk, View.ledger, open_of_deadline h] at hok
      exact factView.ledger_deadline (fun _ => rfl) hok rfl h
  | recordAbandoned url => exact fact_ledger_record h
  | recordAbandonedFails url => exact hok.elim
  | abandonDone =>
      simp only [step] at h
      split at h
      · split at h <;> cases h
        exact .of_eq (by simp [View.ledger, factView, MainPhase.closed, *])
      · cases h
  | _ => exact factView.ledger_quiet rfl h

/-! ## Whole runs -/

/-- The rows of results are as many as the commits that added one. -/
def RowsCounted (state : State) : Prop :=
  state.statusRows.card = state.insertedUrls.card

/-- From the loads of the counters on, nothing is owed and the counts are those of the state. -/
def CountsCurrent (state : State) : Prop :=
  match state.main with
  | .persisting totalUrls skippedUrls successfulUrls =>
      (factView.ledger state).owed = 0 ∧ state.attempted.card < 2 ^ 31 ∧
        totalUrls = state.attempted.card ∧ skippedUrls = state.skipped.card ∧
        ∀ successful ∈ successfulUrls, successful = (state.insertedUrls.card : ℤ)
  | .finalized counts =>
      (factView.ledger state).owed = 0 ∧ counts.totalUrls = state.attempted.card ∧
        counts.successfulUrls = state.insertedUrls.card ∧
        counts.failedUrls = state.failureRows.card ∧ counts.skippedUrls = state.skipped.card
  | _ => True

/-- The next line of the input adds no row of results, and the loop goes on or ends. -/
theorem read_line_frame (setup : Setup) (state : State) :
    (readLine setup state).statusRows = state.statusRows ∧
      (readLine setup state).insertedUrls = state.insertedUrls ∧
      (readLine setup state).main.returned = false := by
  unfold readLine
  simp only [State.skipUrl]
  repeat' split
  all_goals exact ⟨rfl, rfl, rfl⟩

/-- The main loop and the drain add no row of results. -/
theorem rows_frame {setup : Setup} {state next : State} {event : Event}
    (hevent : ∀ number taskEvent, event ≠ .task number taskEvent)
    (h : step setup state event = some next) :
    next.statusRows = state.statusRows ∧ next.insertedUrls = state.insertedUrls := by
  cases event with
  | task number taskEvent => exact absurd rfl (hevent number taskEvent)
  | readLine =>
      simp only [step] at h
      split at h <;> cases h
      obtain ⟨hrows, hurls, -⟩ := read_line_frame setup state
      exact ⟨hrows, hurls⟩
  | _ =>
      simp only [step] at h
      repeat' split at h
      all_goals cases h
      all_goals exact ⟨rfl, rfl⟩

/-- A task adds a row only if its domain has none. -/
theorem new_domain_of_statusRow {cancelled isNewDomain reaping aborting : Bool}
    {phase next : TaskPhase} {event : TaskEvent}
    (h : taskStep cancelled isNewDomain reaping aborting phase event =
      some (next, .statusRow true)) : isNewDomain = true := by
  by_cases hevent : event.breaks = true ∨ event = .reap
  · have hstores := (task_break_facts hevent h).1
    simp [Effect.storesFact] at hstores
  · have hprogress := task_progress_of_step hevent h
    unfold taskProgress at hprogress
    split at hprogress
    all_goals
      try split at hprogress
      all_goals cases hprogress
    rfl

/-- The rows of results stay as many as the commits that added one. -/
theorem rows_counted_step {setup : Setup} {state next : State} {event : Event}
    (hrows : RowsCounted state) (h : step setup state event = some next) : RowsCounted next := by
  by_cases hevent : ∀ number taskEvent, event ≠ .task number taskEvent
  · obtain ⟨hstatus, hinserted⟩ := rows_frame hevent h
    rw [RowsCounted, hstatus, hinserted]
    exact hrows
  · push Not at hevent
    obtain ⟨number, taskEvent, rfl⟩ := hevent
    obtain ⟨task, phase, effect, -, hstep, rfl⟩ := step_task_inv h
    cases effect with
    | statusRow inserted =>
        cases inserted with
        | false => exact hrows
        | true =>
            have hnew : setup.domainOf task.url ∉ state.statusRows :=
              of_decide_eq_true (new_domain_of_statusRow hstep)
            simpa [RowsCounted, State.apply, Finset.card_insert_of_notMem hnew] using hrows
    | _ => exact hrows

/-- A small number is kept by the cast. -/
theorem asI32_eq {n : ℕ} (h : n < 2 ^ 31) : asI32 n = n := by
  unfold asI32
  rw [Int.bmod_eq_of_le] <;> omega

/-- A small number is kept by the saturating cast. -/
theorem saturatingI32Count_eq {n : ℕ} (h : n < 2 ^ 31) : saturatingI32Count n = n := by
  unfold saturatingI32Count
  omega

/-- What is settled was attempted, so each part of it fits where the attempted URLs fit. -/
theorem fact_cards_le {state : State} (h : (factView.ledger state).Sound) :
    state.insertedUrls.card + state.failureRows.card + state.skipped.card ≤
      state.attempted.card := by
  have hle : state.insertedUrls + state.failureRows + state.skipped ≤ state.attempted :=
    (Multiset.le_add_right _ _).trans h.covered_le
  simpa using Multiset.card_le_card hle

/-- If no running task has to store a fact that is owed, then nothing is owed. -/
theorem fact_owed_eq_zero {state : State} (h : (factView.ledger state).Sound)
    (htasks : ∀ task ∈ state.tasks, owesFact task.phase = true →
      task.url ∉ (factView.ledger state).owed) :
    (factView.ledger state).owed = 0 := by
  rw [Multiset.eq_zero_iff_forall_notMem]
  intro url hurl
  obtain ⟨task, htask, howes, rfl⟩ := mem_owing_urls.mp (Multiset.mem_of_le h.owed_le hurl)
  exact htasks task htask howes hurl

/-- Once nothing is owed, the steps of the tasks store nothing more. -/
theorem facts_frame {setup : Setup} {state next : State} {number : ℕ} {event : TaskEvent}
    (hok : FactOk setup state (.task number event)) (hclosed : state.main.closed = true)
    (howed : (factView.ledger state).owed = 0)
    (h : step setup state (.task number event) = some next) :
    next.attempted = state.attempted ∧ next.insertedUrls = state.insertedUrls ∧
      next.failureRows = state.failureRows ∧ next.skipped = state.skipped := by
  obtain ⟨task, phase, effect, htask, hstep, rfl⟩ := step_task_inv h
  have hstores : effect.storesFact = false := by
    cases fact_task_case hok htask hstep with
    | idle hstores _ => exact hstores
    | lose hstores _ _ _ _ => exact hstores
    | settle _ _ _ hmem =>
        have hnone := hmem hclosed
        rw [howed] at hnone
        cases Multiset.notMem_zero _ hnone
  cases effect with
  | statusRow inserted => cases inserted <;> simp_all [Effect.storesFact, State.apply]
  | skipped | failureRow => cases hstores
  | _ => exact ⟨rfl, rfl, rfl, rfl⟩

/-- Before the drain has returned there are no counts. -/
theorem CountsCurrent.of_not_returned {state : State} (h : state.main.returned = false) :
    CountsCurrent state := by
  unfold CountsCurrent
  split
  next hmain =>
    rw [hmain] at h
    cases h
  next hmain =>
    rw [hmain] at h
    cases h
  · trivial

/-- The counts are those of every state with the same facts. -/
theorem CountsCurrent.congr {state next : State} (h : CountsCurrent state)
    (hmain : next.main = state.main)
    (hfacts : next.attempted = state.attempted ∧ next.insertedUrls = state.insertedUrls ∧
      next.failureRows = state.failureRows ∧ next.skipped = state.skipped) :
    CountsCurrent next := by
  obtain ⟨hattempted, hinserted, hfailures, hskipped⟩ := hfacts
  have howed : (factView.ledger next).owed = (factView.ledger state).owed := by
    simp [Ledger.owed, View.ledger, factView, hmain, hattempted, hinserted, hfailures, hskipped]
  unfold CountsCurrent at h ⊢
  rwa [hmain, howed, hattempted, hinserted, hfailures, hskipped]

/-- The tasks do not move the main loop. -/
theorem step_task_main {setup : Setup} {state next : State} {number : ℕ} {event : TaskEvent}
    (h : step setup state (.task number event) = some next) : next.main = state.main := by
  obtain ⟨task, phase, effect, -, -, rfl⟩ := step_task_inv h
  cases effect with
  | statusRow inserted => cases inserted <;> rfl
  | _ => rfl

/-- The tasks leave the counts alone: before the loads there are none, and after them nothing is
owed. -/
theorem CountsCurrent.task {setup : Setup} {state next : State} {number : ℕ} {event : TaskEvent}
    (hcounts : CountsCurrent state) (hok : FactOk setup state (.task number event))
    (h : step setup state (.task number event) = some next) : CountsCurrent next := by
  have hmain := step_task_main h
  have hkeep : state.main.closed = true → (factView.ledger state).owed = 0 → CountsCurrent next :=
    fun hclosed howed => hcounts.congr hmain (facts_frame hok hclosed howed h)
  cases hphase : state.main with
  | persisting total skipped successful =>
      simp only [CountsCurrent, hphase] at hcounts
      exact hkeep (by simp [hphase, MainPhase.closed]) hcounts.1
  | finalized counts =>
      simp only [CountsCurrent, hphase] at hcounts
      exact hkeep (by simp [hphase, MainPhase.closed]) hcounts.1
  | _ => simp [CountsCurrent, hmain, hphase]

/-- The counts stay those of the state. -/
theorem counts_current_step {setup : Setup} {state next : State} {event : Event}
    (hsound : (factView.ledger state).Sound) (hrows : RowsCounted state)
    (hcounts : CountsCurrent state) (hok : FactOk setup state event)
    (h : step setup state event = some next) : CountsCurrent next := by
  have hle := fact_cards_le hsound
  cases event with
  | task number event => exact hcounts.task hok h
  | loadCounters =>
      simp only [step] at h
      split at h <;> cases h
      next hmain =>
        -- Nothing is owed any more, so the counts stay current while they are written.
        obtain ⟨htasks, hfits⟩ := hok
        have howed := fact_owed_eq_zero hsound htasks
        refine ⟨?_, hfits, asI32_eq hfits, asI32_eq (by omega), by simp⟩
        simpa [Ledger.owed, View.ledger, hmain] using howed
  | countStatusRows =>
      simp only [step] at h
      split at h <;> cases h
      next total skipped hmain =>
        simp only [CountsCurrent, hmain] at hcounts
        obtain ⟨howed, hfits, htotal, hskipped, -⟩ := hcounts
        refine ⟨?_, hfits, htotal, hskipped, ?_⟩
        · simpa [Ledger.owed, View.ledger, hmain] using howed
        · rintro successful ⟨⟩
          rw [hrows, saturatingI32Count_eq (by omega)]
  | countFailureRows =>
      simp only [step] at h
      split at h <;> cases h
      next total skipped successful hmain =>
        simp only [CountsCurrent, hmain] at hcounts
        obtain ⟨howed, hfits, htotal, hskipped, hsuccessful⟩ := hcounts
        refine ⟨?_, htotal, hsuccessful successful rfl, saturatingI32Count_eq (by omega), hskipped⟩
        simpa [Ledger.owed, View.ledger, hmain] using howed
  | interrupt =>
      cases h
      exact hcounts
  | readLine =>
      simp only [step] at h
      split at h <;> cases h
      exact .of_not_returned (read_line_frame setup state).2.2
  | _ =>
      simp only [step] at h
      repeat' split at h
      all_goals cases h
      all_goals simp [CountsCurrent]

/-- What a run with exact facts maintains. -/
structure FactsExact (state : State) : Prop where
  sound : (factView.ledger state).Sound
  rows : RowsCounted state
  counts : CountsCurrent state

/-- The facts are exact at the start. -/
theorem facts_exact_init (input : List (Option String)) : FactsExact (.init input) :=
  ⟨sound_init factView input rfl, rfl, trivial⟩

/-- One step that meets the condition keeps the facts exact. -/
theorem facts_exact_step {setup : Setup} {state next : State} {event : Event}
    (h : FactsExact state) (hok : FactOk setup state event)
    (hstep : step setup state event = some next) : FactsExact next :=
  ⟨(fact_ledger_step hok hstep).sound h.sound, rows_counted_step h.rows hstep,
    counts_current_step h.sound h.rows h.counts hok hstep⟩

/-- In every run whose steps all meet the condition, each attempted URL has exactly one fact after
the finalisation: a new row of results, a failure row, or a skip. The persisted counts add up. -/
theorem scan_facts_partition (setup : Setup) (input : List (Option String)) (events : List Event)
    (final : State) (counts : FinalRunCounts)
    (hrun : runTrace (step setup) (.init input) events = some final)
    (hok : Along (step setup) (FactOk setup) (.init input) events)
    (hfinal : final.main = .finalized counts) :
    final.attempted = final.insertedUrls + final.failureRows + final.skipped ∧
      counts.successfulUrls + counts.failedUrls + counts.skippedUrls = counts.totalUrls := by
  have hexact : FactsExact final :=
    invariant_along (fun _ _ _ hexact hstep hnext => facts_exact_step hexact hstep hnext)
      (facts_exact_init input) hok hrun
  have hcounts := hexact.counts
  simp only [CountsCurrent, hfinal] at hcounts
  obtain ⟨howed, htotal, hsuccessful, hfailed, hskipped⟩ := hcounts
  have hfacts : final.attempted = final.insertedUrls + final.failureRows + final.skipped := by
    have hattempted := hexact.sound.attempted_eq
    rw [howed] at hattempted
    simpa [View.ledger, factView, hfinal] using hattempted
  refine ⟨hfacts, ?_⟩
  rw [htotal, hsuccessful, hfailed, hskipped, hfacts]
  simp

/-- One task stores a row and another one fails, and the run is finalised. -/
def storedEvents : List Event :=
  [.nothingReady, .readLine, .acquirePermit, .nothingReady, .readLine, .acquirePermit,
    .nothingReady, .readLine, .task 0 .poll, .task 0 .admitted, .task 1 .poll, .task 1 .admitted,
    .task 0 .commit, .task 1 .fail, .task 0 .finishSuccess, .task 1 .recordRow, .task 1 .resume,
    .task 0 .return, .task 1 .return, .task 0 .reap, .task 1 .reap, .joinedAll, .loadCounters,
    .countStatusRows, .countFailureRows]

/-- Both URLs of the example have one fact, and the counts add up. -/
theorem scan_facts_partition_example :
    ∃ final, runTrace (step exampleSetup)
        (.init [some "https://a.test/", some "https://b.test/"]) storedEvents = some final ∧
      final.main = .finalized ⟨2, 1, 1, 0⟩ ∧
      final.attempted = final.insertedUrls + final.failureRows + final.skipped := by
  have hfinal : (runTrace (step exampleSetup)
      (.init [some "https://a.test/", some "https://b.test/"]) storedEvents).map State.main =
        some (.finalized ⟨2, 1, 1, 0⟩) := by
    decide +kernel
  obtain ⟨final, hrun, hmain⟩ := Option.map_eq_some_iff.mp hfinal
  exact ⟨final, hrun, hmain,
    (scan_facts_partition exampleSetup _ storedEvents final _ hrun (by decide +kernel) hmain).1⟩

/-- The only task times out after the commit of its row, before it has counted its URL. -/
def storedTwiceEvents : List Event :=
  [.nothingReady, .readLine, .acquirePermit, .nothingReady, .readLine, .task 0 .poll,
    .task 0 .admitted, .task 0 .commit, .task 0 .timeout, .task 0 .recordRow, .task 0 .resume,
    .task 0 .return, .task 0 .reap, .joinedAll, .loadCounters, .countStatusRows,
    .countFailureRows]

/-- The URL has a row of results and a failure row, without any database error. -/
theorem scan_facts_stored_twice :
    ¬ ∀ (setup : Setup) (input : List (Option String)) (events : List Event) (final : State)
        (counts : FinalRunCounts),
      (∀ number url, Event.task number .recordFails ∉ events ∧
        Event.recordAbandonedFails url ∉ events) →
      runTrace (step setup) (.init input) events = some final →
      final.main = .finalized counts →
        counts.successfulUrls + counts.failedUrls + counts.skippedUrls = counts.totalUrls := by
  intro h
  have hfinal : (runTrace (step exampleSetup) (.init [some "https://a.test/"])
      storedTwiceEvents).map State.main = some (.finalized ⟨1, 1, 1, 0⟩) := by
    decide +kernel
  obtain ⟨final, hrun, hmain⟩ := Option.map_eq_some_iff.mp hfinal
  have hsum := h exampleSetup _ storedTwiceEvents final _
    (by simp [storedTwiceEvents]) hrun hmain
  exact absurd hsum (by decide)

end DomainStatus.Scan
