import DomainStatus.Summary.History

/-!
# What a summary says

The summary of a run as a user asks for it, after `query_scan_summary` of `src/summary/mod.rs`: by
the number of the run or for the last completed one. Read `scan_summary_says` first: the run comes
from the log of starts and ends, the counts from the pages that are stored.
-/

namespace DomainStatus.Summary

open Storage
open Export.Row

/-- A summary with the log of the runs and with the rows that an export of its run has. -/
structure Describes (sorter : Sorter) (events : List RunEvent) (db : Database)
    (options : SummaryOptions) (summary : ScanSummary) (exported : List ExportRow) : Prop where
  asked : ∀ runId, options.runId = some runId → summary.run.runId = runId
  logged : (told summary.run.runId events).map RunRow.summary = some summary.run
  /-- Without a number the run is completed, and no completed run started later. -/
  latest : options.runId = none → (lastFinish summary.run.runId events).isSome ∧
    ∀ runId metadata, lastStart runId events = some metadata →
      (lastFinish runId events).isSome → metadata.startTimeMs ≤ summary.run.startTimeMs
  statusCounts : summary.statusCounts =
    Groups.ranked sorter (fun row => (row.main.status.toNat : ℤ)) exported
  topTechnologies : Uncut db .technologies → summary.topTechnologies =
    (Groups.ranked sorter TechnologyRecord.name (exported.flatMap ExportRow.technologies)).take
      (topLimit (if options.topTechnologies = 0 then 15 else options.topTechnologies))
  secretCount : Uncut db .exposedSecrets →
    summary.secretCount = (exported.flatMap ExportRow.exposedSecrets).length
  urlsWithSecrets : summary.urlsWithSecrets =
    exported.countP fun row => row.exposedSecrets ≠ []

/-- The log has no run to tell of. -/
def Unknown (events : List RunEvent) : Option String → Prop
  | some runId => lastStart runId events = none
  | none => ∀ runId, lastFinish runId events = none

/-- An error tells of no run, and a summary of one whose rows an export reads. -/
def Says (sorter second : Sorter) (events : List RunEvent) (db : Database)
    (options : SummaryOptions) : Except String ScanSummary → Prop
  | .error _ => Unknown events options.runId
  | .ok summary => ∃ exported,
      forEachExportRow sorter db (ofRun summary.run.runId) = some exported ∧
        Describes second events db options summary exported

section Runs

variable {sorter : Sorter} {events : List RunEvent} {runId : String}

/-- Nothing is told of a run that never started. -/
theorem told_eq_none_iff : told runId events = none ↔ lastStart runId events = none :=
  Option.map_eq_none_iff

/-- A finished run is in the history. -/
theorem mem_queryRunHistory_of_finish {metadata : RunMetadata} {finish : RunStats × ℤ}
    (hstart : lastStart runId events = some metadata)
    (hfinish : lastFinish runId events = some finish) :
    (RunRow.ofRun metadata (some finish)).summary ∈
      queryRunHistory sorter (runLog events).summaries none := by
  have hid : (RunRow.ofRun metadata (some finish)).summary.runId = runId :=
    (RunRow.ofRun_runId metadata (some finish)).trans (runId_of_lastStart hstart)
  rw [mem_queryRunHistory, hid]
  exact ⟨metadata, finish, hstart, hfinish, rfl⟩

/-- A run that ended has started. -/
theorem exists_lastStart {finish : RunStats × ℤ} (h : lastFinish runId events = some finish) :
    ∃ metadata, lastStart runId events = some metadata := by
  cases hstart : lastStart runId events with
  | some metadata => exact ⟨metadata, rfl⟩
  | none =>
      rw [lastFinish_of_not_started hstart] at h
      cases h

/-- An error means that the run is unknown. -/
theorem unknown_of_error {options : Option String} {message : String}
    (h : resolveRun sorter (runLog events).summaries options = .error message) :
    Unknown events options := by
  cases options with
  | some runId =>
      rw [resolveRun, queryRunById_runLog] at h
      cases htold : told runId events with
      | none => exact told_eq_none_iff.mp htold
      | some row =>
          rw [htold] at h
          cases h
  | none =>
      intro runId
      cases hfinish : lastFinish runId events with
      | none => rfl
      | some finish =>
          obtain ⟨metadata, hstart⟩ := exists_lastStart hfinish
          have hmem : (RunRow.ofRun metadata (some finish)).summary ∈
              queryRunHistory sorter (runLog events).summaries none :=
            mem_queryRunHistory_of_finish hstart hfinish
          have hfirst : queryRunHistory sorter (runLog events).summaries (some 1) =
              (queryRunHistory sorter (runLog events).summaries none).take 1 := rfl
          obtain ⟨latest, rest, hhistory⟩ := List.exists_cons_of_ne_nil (List.ne_nil_of_mem hmem)
          rw [resolveRun, hfirst, hhistory] at h
          cases h

/-- The run that is found is one that was told of. -/
theorem told_of_ok {options : Option String} {run : RunSummary}
    (h : resolveRun sorter (runLog events).summaries options = .ok run) :
    (∀ runId, options = some runId → run.runId = runId) ∧
      (told run.runId events).map RunRow.summary = some run := by
  cases options with
  | some runId =>
      rw [resolveRun, queryRunById_runLog] at h
      cases htold : told runId events with
      | none =>
          rw [htold] at h
          cases h
      | some row =>
          rw [htold] at h
          cases h
          obtain ⟨metadata, hstart, rfl⟩ := Option.map_eq_some_iff.mp htold
          have hid : (RunRow.ofRun metadata (lastFinish runId events)).summary.runId = runId :=
            (RunRow.ofRun_runId _ _).trans (runId_of_lastStart hstart)
          refine ⟨fun asked hasked => ?_, ?_⟩
          · rw [hid]
            exact Option.some.inj hasked
          · rw [hid, htold]
            rfl
  | none =>
      obtain ⟨metadata, finish, hstart, hfinish, hrun⟩ :=
        mem_queryRunHistory.mp (latest_queryRunHistory h).1
      refine ⟨fun runId hasked => absurd hasked.symm (Option.some_ne_none runId), ?_⟩
      rw [told, hstart, hfinish, Option.map_some, Option.map_some, ← hrun]

/-- The run that is found without a name has finished, and no finished run started later. -/
theorem latest_of_ok {run : RunSummary}
    (h : resolveRun sorter (runLog events).summaries none = .ok run) :
    (lastFinish run.runId events).isSome ∧
      ∀ runId metadata, lastStart runId events = some metadata →
        (lastFinish runId events).isSome → metadata.startTimeMs ≤ run.startTimeMs := by
  obtain ⟨hmem, hlatest⟩ := latest_queryRunHistory h
  obtain ⟨metadata, finish, -, hfinish, -⟩ := mem_queryRunHistory.mp hmem
  refine ⟨Option.isSome_iff_exists.mpr ⟨finish, hfinish⟩, fun runId other hstart hended => ?_⟩
  obtain ⟨otherFinish, hother⟩ := Option.isSome_iff_exists.mp hended
  exact hlatest _ (mem_queryRunHistory_of_finish hstart hother)

end Runs

variable {ι : Type} [DecidableEq ι]

/-- A scan of the run that has ended. -/
def endedRun : List RunEvent :=
  [.start ⟨"run", 1, "1.0", none, none, none⟩, .finish ⟨"run", 2, 2, 0, 0, 0⟩ 5]

end DomainStatus.Summary
