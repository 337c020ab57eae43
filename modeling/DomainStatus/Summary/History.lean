import DomainStatus.Summary.Agreement

/-!
# The history of runs

The table `runs`, after `src/storage/insert/run.rs`: a scan writes its row when it starts and
completes it when it ends. A scan that starts with the number of an earlier one takes over its row,
and with it the end and the counts. Read `history_of_log` first: after any log of such events, from
however many processes, the queries tell of each run what the log tells.
-/

namespace DomainStatus.Summary

open Storage

/-- What is stored at the start of a run. -/
structure RunMetadata where
  runId : String
  startTimeMs : ℤ
  version : String
  fingerprintsSource : Option String
  fingerprintsVersion : Option String
  geoipVersion : Option String

/-- What is stored at the end of a run. -/
structure RunStats where
  runId : String
  totalUrls : ℤ
  successfulUrls : ℤ
  failedUrls : ℤ
  skippedUrls : ℤ
  elapsedSeconds : F64

/-- A row of `runs` with the columns that no query on runs reads. -/
structure RunRow where
  summary : RunSummary
  fingerprintsSource : Option String
  fingerprintsVersion : Option String
  geoipVersion : Option String

namespace RunRow

/-- The id of a stored run. -/
def runId (row : RunRow) : String :=
  row.summary.runId

/-- The columns that are set when a run starts. -/
def started (row : RunRow) (metadata : RunMetadata) : RunRow where
  summary := { row.summary with
    version := some metadata.version
    startTimeMs := metadata.startTimeMs }
  fingerprintsSource := metadata.fingerprintsSource
  fingerprintsVersion := metadata.fingerprintsVersion
  geoipVersion := metadata.geoipVersion

/-- The columns that are set when a run ends. -/
def finished (row : RunRow) (stats : RunStats) (endTimeMs : ℤ) : RunRow :=
  { row with summary := { row.summary with
      endTimeMs := some endTimeMs
      totalUrls := stats.totalUrls
      successfulUrls := stats.successfulUrls
      failedUrls := stats.failedUrls
      skippedUrls := stats.skippedUrls
      elapsedSeconds := some stats.elapsedSeconds } }

/-- The row of a new run. The other columns have their defaults. -/
def ofMetadata (metadata : RunMetadata) : RunRow :=
  started ⟨{ runId := metadata.runId, startTimeMs := metadata.startTimeMs }, none, none, none⟩
    metadata

/-- The row of a run that has started, and that has ended perhaps. -/
def ofRun (metadata : RunMetadata) : Option (RunStats × ℤ) → RunRow
  | none => ofMetadata metadata
  | some (stats, endTimeMs) => (ofMetadata metadata).finished stats endTimeMs

@[simp] theorem started_runId (row : RunRow) (metadata : RunMetadata) :
    (row.started metadata).runId = row.runId := rfl

@[simp] theorem finished_runId (row : RunRow) (stats : RunStats) (endTimeMs : ℤ) :
    (row.finished stats endTimeMs).runId = row.runId := rfl

@[simp] theorem ofMetadata_runId (metadata : RunMetadata) :
    (ofMetadata metadata).runId = metadata.runId := rfl

@[simp] theorem ofRun_runId (metadata : RunMetadata) (finish : Option (RunStats × ℤ)) :
    (ofRun metadata finish).runId = metadata.runId := by
  cases finish <;> rfl

/-- A new start changes what the last one has set, and nothing else. -/
theorem ofRun_started {old metadata : RunMetadata} (h : old.runId = metadata.runId)
    (finish : Option (RunStats × ℤ)) :
    (ofRun old finish).started metadata = ofRun metadata finish := by
  cases finish <;> simp [ofRun, ofMetadata, finished, started, h]

/-- A run that finishes again has the later end. -/
theorem ofRun_finished (metadata : RunMetadata) (finish : Option (RunStats × ℤ))
    (stats : RunStats) (endTimeMs : ℤ) :
    (ofRun metadata finish).finished stats endTimeMs =
      ofRun metadata (some (stats, endTimeMs)) := by
  cases finish <;> rfl

end RunRow

/-- The rows of `runs`. The number of a run is its primary key. -/
structure RunTable where
  rows : List RunRow
  nodup : (rows.map RunRow.runId).Nodup

namespace RunTable

/-- No run is stored. -/
def empty : RunTable where
  rows := []
  nodup := List.nodup_nil

/-- The rows as the queries read them. -/
def summaries (table : RunTable) : List RunSummary :=
  table.rows.map RunRow.summary

/-- Changes the row of a run. -/
def update (table : RunTable) (runId : String) (change : RunRow → RunRow)
    (hchange : ∀ row, (change row).runId = row.runId) : RunTable where
  rows := table.rows.map fun row => if row.runId = runId then change row else row
  nodup := by
    have hids : (table.rows.map fun row => if row.runId = runId then change row else row).map
        RunRow.runId = table.rows.map RunRow.runId := by
      rw [List.map_map]
      refine List.map_congr_left fun row _ => ?_
      rw [Function.comp_apply]
      split
      · exact hchange row
      · rfl
    rw [hids]
    exact table.nodup

/-- `INSERT INTO runs … ON CONFLICT(run_id) DO UPDATE SET …`. -/
def insertRunMetadata (table : RunTable) (metadata : RunMetadata) : RunTable :=
  if h : metadata.runId ∈ table.rows.map RunRow.runId then
    table.update metadata.runId (·.started metadata) fun row =>
      row.started_runId metadata
  else
    { rows := table.rows ++ [.ofMetadata metadata]
      nodup := by
        rw [List.map_append, List.map_singleton, List.nodup_append_comm]
        exact List.nodup_cons.mpr ⟨h, table.nodup⟩ }

/-- `UPDATE runs SET … WHERE run_id = ?`. Without such a row nothing is stored. -/
def updateRunStats (table : RunTable) (stats : RunStats) (endTimeMs : ℤ) : RunTable :=
  table.update stats.runId (·.finished stats endTimeMs) fun row =>
    row.finished_runId stats endTimeMs

end RunTable

/-! ## Logs -/

/-- A scan starts or ends. -/
inductive RunEvent where
  | start (metadata : RunMetadata)
  | finish (stats : RunStats) (endTimeMs : ℤ)

namespace RunEvent

/-- A start or an end of a run. -/
def apply (table : RunTable) : RunEvent → RunTable
  | start metadata => table.insertRunMetadata metadata
  | finish stats endTimeMs => table.updateRunStats stats endTimeMs

/-- The start of the run, if the event is one. -/
def start? (runId : String) : RunEvent → Option RunMetadata
  | start metadata => if metadata.runId = runId then some metadata else none
  | finish _ _ => none

/-- The end of the run, if the event is one. -/
def finish? (runId : String) : RunEvent → Option (RunStats × ℤ)
  | start _ => none
  | finish stats endTimeMs => if stats.runId = runId then some (stats, endTimeMs) else none

end RunEvent

/-- The table after some starts and ends. -/
def runLog (events : List RunEvent) : RunTable :=
  events.foldl RunEvent.apply .empty

/-- The metadata of a run are those of its last start. -/
def lastStart (runId : String) (events : List RunEvent) : Option RunMetadata :=
  (events.filterMap (RunEvent.start? runId)).getLast?

/-- The end of a run is the last one after its first start. An end before that is lost. -/
def lastFinish (runId : String) (events : List RunEvent) : Option (RunStats × ℤ) :=
  ((events.dropWhile fun event => (event.start? runId).isNone).filterMap
    (RunEvent.finish? runId)).getLast?

/-- What the log tells of a run. -/
def told (runId : String) (events : List RunEvent) : Option RunRow :=
  (lastStart runId events).map fun metadata => .ofRun metadata (lastFinish runId events)

section Log

variable {runId : String} {events : List RunEvent} {event : RunEvent} {table : RunTable}

/-- The last start, with one event more. -/
theorem lastStart_concat :
    lastStart runId (events ++ [event]) = (event.start? runId).or (lastStart runId events) := by
  rw [lastStart, List.filterMap_append, List.getLast?_append]
  cases h : event.start? runId <;> simp [lastStart, h]

/-- There are no events from the first start on if the run never started. -/
theorem dropWhile_eq_nil_iff :
    (events.dropWhile fun event => (event.start? runId).isNone) = [] ↔
      lastStart runId events = none := by
  rw [List.dropWhile_eq_nil_iff, lastStart, List.getLast?_eq_none_iff, List.filterMap_eq_nil_iff]
  simp

/-- An end counts if the run has started. -/
theorem lastFinish_concat :
    lastFinish runId (events ++ [event]) =
      if (lastStart runId events).isSome then (event.finish? runId).or (lastFinish runId events)
      else none := by
  rw [lastFinish, List.dropWhile_append]
  cases hstart : lastStart runId events with
  | none =>
      rw [dropWhile_eq_nil_iff.mpr hstart]
      cases event with
      | start metadata =>
          by_cases h : metadata.runId = runId <;> simp [RunEvent.start?, RunEvent.finish?, h]
      | finish stats endTimeMs => simp [RunEvent.start?]
  | some metadata =>
      have hne : (events.dropWhile fun event => (event.start? runId).isNone).isEmpty = false := by
        rw [Bool.eq_false_iff, ne_eq, List.isEmpty_iff, dropWhile_eq_nil_iff, hstart]
        exact Option.some_ne_none metadata
      rw [hne, if_neg Bool.false_ne_true, List.filterMap_append, List.getLast?_append]
      cases h : event.finish? runId <;> simp [lastFinish, h]

/-- Only the row of the run is updated. -/
theorem find_update {change : RunRow → RunRow} (hchange : ∀ row, (change row).runId = row.runId)
    (changed : String) :
    (table.update changed change hchange).rows.find? (·.runId = runId) =
      (table.rows.find? (·.runId = runId)).map fun row =>
        if runId = changed then change row else row := by
  have hkept : (fun row : RunRow => decide ((if row.runId = changed then change row else row).runId
      = runId)) = fun row => decide (row.runId = runId) := by
    funext row
    split
    · rw [hchange]
    · rfl
  rw [RunTable.update, List.find?_map, Function.comp_def, hkept]
  cases hfind : table.rows.find? (·.runId = runId) with
  | none => rfl
  | some row =>
      have hrow : row.runId = runId := by simpa using List.find?_some hfind
      rw [Option.map_some, Option.map_some, hrow]

/-- A start is entered into the row of the run. -/
theorem find_insertRunMetadata (metadata : RunMetadata) :
    (table.insertRunMetadata metadata).rows.find? (·.runId = runId) =
      if metadata.runId = runId then
        some (((table.rows.find? (·.runId = runId)).getD (.ofMetadata metadata)).started metadata)
      else table.rows.find? (·.runId = runId) := by
  unfold RunTable.insertRunMetadata
  split
  case isTrue hold =>
    rw [find_update]
    by_cases hmeta : metadata.runId = runId
    · obtain ⟨row, hrow, hid⟩ := List.mem_map.mp hold
      have hsome : (table.rows.find? (·.runId = runId)).isSome := by
        rw [List.find?_isSome]
        exact ⟨row, hrow, decide_eq_true (hid.trans hmeta)⟩
      obtain ⟨found, hfound⟩ := Option.isSome_iff_exists.mp hsome
      simp [hfound, hmeta]
    · simp [hmeta, Ne.symm hmeta]
  case isFalse hnew =>
    rw [List.find?_append, List.find?_singleton]
    by_cases hmeta : metadata.runId = runId
    · have hnone : table.rows.find? (·.runId = runId) = none := by
        rw [List.find?_eq_none]
        intro row hrow hid
        exact hnew (List.mem_map.mpr ⟨row, hrow, (of_decide_eq_true hid).trans hmeta.symm⟩)
      simp only [hnone, Option.none_or, RunRow.ofMetadata_runId, hmeta, decide_true, if_true]
      rfl
    · simp [hmeta]

/-- The last start of a run bears its name. -/
theorem runId_of_lastStart {metadata : RunMetadata}
    (h : lastStart runId events = some metadata) : metadata.runId = runId := by
  obtain ⟨event, -, hstart⟩ := List.mem_filterMap.mp (List.mem_of_getLast? h)
  cases event with
  | finish stats endTimeMs => cases hstart
  | start found =>
      by_cases hfound : found.runId = runId
      · rw [RunEvent.start?, if_pos hfound, Option.some.injEq] at hstart
        rwa [← hstart]
      · simp [RunEvent.start?, hfound] at hstart

/-- A run that never started has not finished. -/
theorem lastFinish_of_not_started (h : lastStart runId events = none) :
    lastFinish runId events = none := by
  rw [lastFinish, dropWhile_eq_nil_iff.mpr h]
  rfl

/-- The row of a run is what the log tells of it. -/
theorem find_runLog (runId : String) (events : List RunEvent) :
    (runLog events).rows.find? (·.runId = runId) = told runId events := by
  induction events using List.reverseRecOn with
  | nil => rfl
  | append_singleton events event ih =>
      have hlast : runLog (events ++ [event]) = event.apply (runLog events) := List.foldl_concat ..
      rw [hlast, told, lastStart_concat, lastFinish_concat]
      cases event with
      | start metadata =>
          have hfinish : (if (lastStart runId events).isSome then
              ((RunEvent.start metadata).finish? runId).or (lastFinish runId events) else none) =
                lastFinish runId events := by
            cases hstart : lastStart runId events with
            | none => rw [lastFinish_of_not_started hstart]; rfl
            | some old => rfl
          rw [RunEvent.apply, find_insertRunMetadata, ih, told, hfinish]
          by_cases hid : metadata.runId = runId
          · rw [RunEvent.start?, if_pos hid, if_pos hid]
            cases hstart : lastStart runId events with
            | none =>
                rw [lastFinish_of_not_started hstart]
                rfl
            | some old =>
                have hsame : old.runId = metadata.runId :=
                  (runId_of_lastStart hstart).trans hid.symm
                simp [RunRow.ofRun_started hsame]
          · rw [RunEvent.start?, if_neg hid, if_neg hid, Option.none_or]
      | finish stats endTimeMs =>
          rw [RunEvent.apply, RunTable.updateRunStats, find_update, ih, told, RunEvent.start?,
            Option.none_or]
          cases hstart : lastStart runId events with
          | none => rfl
          | some metadata =>
              by_cases hid : stats.runId = runId
              · simp [RunEvent.finish?, hid, RunRow.ofRun_finished]
              · simp [RunEvent.finish?, hid, Ne.symm hid]

/-! ## Queries -/

/-- The queries on runs tell what the log tells. -/
structure TellsHistory (sorter : Sorter) (events : List RunEvent) (runs : List RunSummary) :
    Prop where
  byId : ∀ runId, queryRunById runs runId = (told runId events).map RunRow.summary
  completed : ∀ run, run ∈ queryRunHistory sorter runs none ↔
    ∃ metadata finish, lastStart run.runId events = some metadata ∧
      lastFinish run.runId events = some finish ∧
      run = (RunRow.ofRun metadata (some finish)).summary
  once : ((queryRunHistory sorter runs none).map RunSummary.runId).Nodup
  latestFirst : (queryRunHistory sorter runs none).Pairwise fun run earlier =>
    earlier.startTimeMs ≤ run.startTimeMs
  latest : ∀ run, resolveRun sorter runs none = .ok run →
    run ∈ queryRunHistory sorter runs none ∧
      ∀ other ∈ queryRunHistory sorter runs none, other.startTimeMs ≤ run.startTimeMs

variable {sorter : Sorter}

/-- The rows of the log tell what happened. -/
theorem mem_runLog {row : RunRow} :
    row ∈ (runLog events).rows ↔ told row.runId events = some row := by
  rw [← find_runLog]
  constructor
  · intro h
    obtain ⟨found, hfound⟩ : ∃ found, (runLog events).rows.find? (·.runId = row.runId) =
        some found := by
      rw [← Option.isSome_iff_exists, List.find?_isSome]
      exact ⟨row, h, decide_eq_true rfl⟩
    have hid : found.runId = row.runId := by simpa using List.find?_some hfound
    rw [hfound, List.inj_on_of_nodup_map (runLog events).nodup (List.mem_of_find?_eq_some hfound) h
      hid]
  · exact List.mem_of_find?_eq_some

/-- A run is found as it was told. -/
theorem queryRunById_runLog (runId : String) (events : List RunEvent) :
    queryRunById (runLog events).summaries runId = (told runId events).map RunRow.summary := by
  rw [← find_runLog, queryRunById, RunTable.summaries, List.find?_map]
  rfl

/-- The history has the runs that finished. -/
theorem mem_queryRunHistory {run : RunSummary} :
    run ∈ queryRunHistory sorter (runLog events).summaries none ↔
      ∃ metadata finish, lastStart run.runId events = some metadata ∧
        lastFinish run.runId events = some finish ∧
        run = (RunRow.ofRun metadata (some finish)).summary := by
  simp only [queryRunHistory, Option.map_none, Option.getD_none, Sorter.mem_sort, List.mem_filter,
    RunTable.summaries, List.mem_map, mem_runLog]
  constructor
  · rintro ⟨⟨row, htold, rfl⟩, hended⟩
    obtain ⟨metadata, hstart, hrow⟩ := Option.map_eq_some_iff.mp htold
    cases hfinish : lastFinish row.runId events with
    | none =>
        rw [hfinish] at hrow
        rw [← hrow] at hended
        cases hended
    | some finish => exact ⟨metadata, finish, hstart, hfinish, by rw [← hrow, hfinish]⟩
  · rintro ⟨metadata, finish, hstart, hfinish, hrun⟩
    refine ⟨⟨.ofRun metadata (some finish), ?_, hrun.symm⟩, by rw [hrun]; rfl⟩
    have hid : (RunRow.ofRun metadata (some finish)).runId = run.runId := by rw [hrun]; rfl
    rw [hid, told, hstart, hfinish]
    rfl

/-- Without a name the latest run is taken. -/
theorem latest_queryRunHistory {runs : List RunSummary} {run : RunSummary}
    (h : resolveRun sorter runs none = .ok run) :
    run ∈ queryRunHistory sorter runs none ∧
      ∀ other ∈ queryRunHistory sorter runs none, other.startTimeMs ≤ run.startTimeMs := by
  have hfirst : queryRunHistory sorter runs (some 1) =
      (queryRunHistory sorter runs none).take 1 := rfl
  have hsorted := sorter.sorted (fun run : RunSummary => OrderDual.toDual run.startTimeMs)
    (runs.filter (·.endTimeMs.isSome))
  unfold resolveRun at h
  rw [hfirst] at h
  cases hhistory : queryRunHistory sorter runs none with
  | nil => simp [hhistory] at h
  | cons latest rest =>
      simp only [hhistory, List.take_succ_cons, List.take_zero, List.getLast?_singleton,
        Except.ok.injEq] at h
      subst h
      have hpairwise : (latest :: rest).Pairwise fun run earlier : RunSummary =>
          OrderDual.toDual run.startTimeMs ≤ OrderDual.toDual earlier.startTimeMs := by
        rw [← hhistory]
        exact hsorted
      refine ⟨List.mem_cons_self, fun other hother => ?_⟩
      rcases List.mem_cons.mp hother with rfl | hrest
      · exact le_refl _
      · exact OrderDual.toDual_le_toDual.mp (List.rel_of_pairwise_cons hpairwise hrest)

/-- After any starts and ends of scans, the queries on runs tell what the log tells: of a run the
last start with the last end behind its first start, and the completed runs once each, from the
latest start on. -/
theorem history_of_log (sorter : Sorter) (events : List RunEvent) :
    TellsHistory sorter events (runLog events).summaries where
  byId runId := queryRunById_runLog runId events
  completed run := mem_queryRunHistory
  once := by
    have hids : ((runLog events).summaries.map RunSummary.runId).Nodup := by
      rw [RunTable.summaries, List.map_map]
      exact (runLog events).nodup
    refine (((sorter.perm _ _).map RunSummary.runId).nodup_iff).mpr ?_
    exact (List.filter_sublist.map RunSummary.runId).nodup hids
  latestFirst := by
    have hsorted := sorter.sorted (fun run : RunSummary => OrderDual.toDual run.startTimeMs)
      ((runLog events).summaries.filter (·.endTimeMs.isSome))
    exact hsorted.imp OrderDual.toDual_le_toDual.mp
  latest run := latest_queryRunHistory

/-- A scan that is killed after a scan with its number: the row keeps the old end. -/
example :
    let metadata : RunMetadata := ⟨"run", 1, "1.0", none, none, none⟩
    let stats : RunStats := ⟨"run", 2, 2, 0, 0, 0⟩
    (queryRunById (runLog [.start metadata, .finish stats 5,
      .start { metadata with startTimeMs := 9 }]).summaries "run").map
        (fun run => (run.startTimeMs, run.endTimeMs)) = some (9, some 5) := by
  decide +kernel

end Log

end DomainStatus.Summary
