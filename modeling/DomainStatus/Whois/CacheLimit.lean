import DomainStatus.Whois.Cache

/-!
# The size of the WHOIS cache directory

What keeps the cache directory small, after `src/whois/cache.rs`. A save scans the directory only
now and then. It knows when from a counter, which the first save of a process sets to the number
of all entries of the directory. Read `evicts_enforceCacheLimit` and `Bounded` first.
-/

namespace DomainStatus.Whois

/-! ## The counter -/

/-- Subtraction of `usize`, which must not go below zero. -/
def checkedSub (left right : ℕ) : Option ℕ :=
  if right ≤ left then some (left - right) else none

/-- `shouldEnforce` with every subtraction checked that the code does not saturate. -/
def shouldEnforceChecked (maxEntries count : ℕ) : Option Bool := do
  let overLimit := decide (maxEntries ≤ count)
  let firstTimeOver := overLimit && decide (count - maxEntries ≤ 1)
  let intervalHit ←
    if overLimit && decide (maxEntries < count) then do
      let above ← checkedSub count maxEntries
      let behind ← checkedSub above 1
      some (behind % enforceIntervalWhenOverLimit == 0)
    else some false
  some (count == 1 || firstTimeOver || intervalHit)

/-- The subtraction does not underflow. -/
theorem shouldEnforceChecked_eq (maxEntries count : ℕ) :
    shouldEnforceChecked maxEntries count = some (shouldEnforce maxEntries count) := by
  unfold shouldEnforceChecked shouldEnforce
  by_cases hover : maxEntries < count
  · have hsub : checkedSub count maxEntries = some (count - maxEntries) :=
      if_pos (Nat.le_of_lt hover)
    have hpred : checkedSub (count - maxEntries) 1 = some (count - maxEntries - 1) :=
      if_pos (by omega)
    simp [hover, Nat.le_of_lt hover, hsub, hpred]
  · simp [hover]

/-- How many saves ago a save above the limit scanned the directory. -/
def sinceScan (maxEntries count : ℕ) : ℕ :=
  (count - maxEntries - 1) % enforceIntervalWhenOverLimit

/-- The distance to the last scan is below the interval. -/
theorem sinceScan_lt (maxEntries count : ℕ) :
    sinceScan maxEntries count < enforceIntervalWhenOverLimit :=
  Nat.mod_lt _ (by decide)

/-- The first write over the limit scans. -/
theorem sinceScan_first (maxEntries : ℕ) : sinceScan maxEntries (maxEntries + 1) = 0 := by
  simp [sinceScan]

/-- Above the limit a save scans the directory, or it is one more save after the last scan. -/
theorem sinceScan_succ {maxEntries count : ℕ} (hover : maxEntries < count) :
    sinceScan maxEntries (count + 1) = 0 ∨
      sinceScan maxEntries (count + 1) = sinceScan maxEntries count + 1 := by
  unfold sinceScan enforceIntervalWhenOverLimit
  omega

/-- Over the limit a scan is due at every interval. -/
theorem shouldEnforce_of_sinceScan {maxEntries count : ℕ} (hover : maxEntries < count)
    (hscan : sinceScan maxEntries count = 0) : shouldEnforce maxEntries count = true := by
  unfold sinceScan at hscan
  unfold shouldEnforce
  simp [hover, Nat.le_of_lt hover, hscan]

@[simp] theorem shouldEnforce_one (maxEntries : ℕ) : shouldEnforce maxEntries 1 = true := by
  simp [shouldEnforce]

/-! ## One eviction -/

section Eviction

variable {ι : Type} (place : Directory ι)

/-- The json files of the directory. -/
def jsonFiles (files : CacheFiles ι) : List (Sigma fun _ : ι => StoredFile) :=
  files.entries.filter fun entry => place.lists entry.1

/-- What an eviction does. It leaves few enough json files, all as they were, and removes only json
files that are no newer than every one of these. -/
structure Evicts (before after : CacheFiles ι) : Prop where
  le_maxEntries : (jsonFiles place after).length ≤ place.maxEntries
  unchanged : ∀ entry ∈ after.entries, entry ∈ before.entries
  oldest : ∀ removed ∈ before.entries, removed ∉ after.entries →
    place.lists removed.1 = true ∧
      ∀ kept ∈ jsonFiles place after, removed.2.modified ≤ kept.2.modified

variable {place} {files : CacheFiles ι}

/-- The files that count. -/
theorem mem_jsonFiles {entry : Sigma fun _ : ι => StoredFile} :
    entry ∈ jsonFiles place files ↔ entry ∈ files.entries ∧ place.lists entry.1 = true :=
  List.mem_filter

/-- No file is listed twice. -/
theorem nodup_entries (files : CacheFiles ι) : files.entries.Nodup :=
  files.nodupKeys.nodup

/-- The files sorted by age, the oldest one first. -/
theorem pairwise_modified (entries : List (Sigma fun _ : ι => StoredFile)) :
    (entries.mergeSort fun left right => left.2.modified ≤ right.2.modified).Pairwise
      fun left right => left.2.modified ≤ right.2.modified := by
  have hsorted : (entries.mergeSort fun left right =>
      left.2.modified ≤ right.2.modified).Pairwise
        fun left right => decide (left.2.modified ≤ right.2.modified) = true :=
    List.pairwise_mergeSort
      (fun a b c hab hbc => by
        rw [decide_eq_true_eq] at hab hbc ⊢
        exact Nat.le_trans hab hbc)
      (fun a b => by
        rw [Bool.or_eq_true, decide_eq_true_eq, decide_eq_true_eq]
        exact Nat.le_total _ _) entries
  exact hsorted.imp fun h => of_decide_eq_true h

variable [DecidableEq ι]

/-- The listed files are those there are. -/
theorem mem_entries_iff {entry : Sigma fun _ : ι => StoredFile} :
    entry ∈ files.entries ↔ files.lookup entry.1 = some entry.2 :=
  AList.mem_lookup_iff.symm

/-- A file has one entry. -/
theorem entry_eq_of_key_eq {left right : Sigma fun _ : ι => StoredFile}
    (hleft : left ∈ files.entries) (hright : right ∈ files.entries) (h : left.1 = right.1) :
    left = right := by
  obtain ⟨file, stored⟩ := left
  obtain ⟨other, found⟩ := right
  obtain rfl : file = other := h
  rw [mem_entries_iff] at hleft hright
  rw [hleft] at hright
  exact congrArg (Sigma.mk file) (Option.some.inj hright)

/-- The files without those of some entries. -/
def without (gone : List (Sigma fun _ : ι => StoredFile)) (files : CacheFiles ι) : CacheFiles ι :=
  gone.foldl (fun files entry => removeFile (fun _ => false) files entry.1) files

/-- What is left without some files. -/
theorem mem_without {gone : List (Sigma fun _ : ι => StoredFile)}
    {entry : Sigma fun _ : ι => StoredFile} :
    entry ∈ (without gone files).entries ↔
      entry ∈ files.entries ∧ ∀ removed ∈ gone, removed.1 ≠ entry.1 := by
  induction gone generalizing files with
  | nil => simp [without]
  | cons first rest ih =>
      have hfirst : entry ∈ (removeFile (fun _ => false) files first.1).entries ↔
          entry ∈ files.entries ∧ first.1 ≠ entry.1 := by
        show entry ∈ (files.erase first.1).entries ↔ _
        rw [mem_entries_iff, mem_entries_iff]
        by_cases hsame : entry.1 = first.1
        · rw [hsame, AList.lookup_erase]
          simp
        · rw [AList.lookup_erase_ne hsame]
          simp [Ne.symm hsame]
      rw [without, List.foldl_cons, ← without, ih, hfirst, List.forall_mem_cons, and_assoc]

/-- Of the json files in some order, only those behind the removed ones are left. -/
theorem mem_behind {sorted : List (Sigma fun _ : ι => StoredFile)} {count : ℕ}
    (hperm : sorted.Perm (jsonFiles place files)) {entry : Sigma fun _ : ι => StoredFile}
    (h : entry ∈ jsonFiles place (without (sorted.take count) files)) :
    entry ∈ sorted.drop count := by
  rw [mem_jsonFiles, mem_without] at h
  obtain ⟨⟨hbefore, hnot⟩, hlisted⟩ := h
  have hin : entry ∈ sorted.take count ++ sorted.drop count := by
    rw [List.take_append_drop, hperm.mem_iff]
    exact mem_jsonFiles.mpr ⟨hbefore, hlisted⟩
  rcases List.mem_append.mp hin with hold | hnew
  · exact absurd rfl (hnot entry hold)
  · exact hnew

/-- How many files are left behind those removed. -/
theorem length_behind {sorted : List (Sigma fun _ : ι => StoredFile)} (count : ℕ)
    (hperm : sorted.Perm (jsonFiles place files)) :
    (jsonFiles place (without (sorted.take count) files)).length ≤ sorted.length - count := by
  have hnodup := (nodup_entries (without (sorted.take count) files)).filter
    fun entry => place.lists entry.1
  rw [← List.length_drop]
  exact (hnodup.subperm fun entry hentry => mem_behind hperm hentry).length_le

/-- A scan removes the oldest files. -/
theorem evicts_enforceCacheLimit (place : Directory ι) (files : CacheFiles ι) :
    Evicts place files (enforceCacheLimit place (fun _ => false) files) := by
  unfold enforceCacheLimit
  extract_lets entries oldest
  split
  case isTrue hfew =>
    exact ⟨hfew, fun _ h => h, fun removed hbefore hafter => absurd hbefore hafter⟩
  case isFalse =>
    set sorted := entries.mergeSort fun left right => left.2.modified ≤ right.2.modified
      with hsorted
    have hperm : sorted.Perm (jsonFiles place files) := List.mergeSort_perm _ _
    have hordered : (oldest ++ sorted.drop (entries.length - place.maxEntries)).Pairwise
        fun left right => left.2.modified ≤ right.2.modified := by
      rw [show oldest ++ sorted.drop (entries.length - place.maxEntries) = sorted from
        List.take_append_drop _ _]
      exact pairwise_modified entries
    refine ⟨?_, fun entry hentry => (mem_without.mp hentry).1, ?_⟩
    · have hlength : sorted.length = entries.length := List.length_mergeSort _
      have hleft := length_behind (entries.length - place.maxEntries) hperm
      refine Nat.le_trans hleft ?_
      omega
    · intro removed hbefore hafter
      obtain ⟨entry, hentry, hkey⟩ : ∃ entry ∈ oldest, entry.1 = removed.1 := by
        by_contra hnone
        exact hafter (mem_without.mpr ⟨hbefore, fun gone hgone hkey => hnone ⟨gone, hgone, hkey⟩⟩)
      have hjson := mem_jsonFiles.mp (hperm.mem_iff.mp (List.mem_of_mem_take hentry))
      obtain rfl := entry_eq_of_key_eq hjson.1 hbefore hkey
      exact ⟨hjson.2, fun newer hnewer =>
        (List.pairwise_append.mp hordered).2.2 entry hentry newer (mem_behind hperm hnewer)⟩

/-- An eviction adds no json file. -/
theorem length_jsonFiles_enforceCacheLimit_le :
    (jsonFiles place (enforceCacheLimit place (fun _ => false) files)).length ≤
      (jsonFiles place files).length := by
  have hevicts := evicts_enforceCacheLimit place files
  have hnodup := (nodup_entries (enforceCacheLimit place (fun _ => false) files)).filter
    fun entry => place.lists entry.1
  refine (hnodup.subperm fun entry hentry => ?_).length_le
  obtain ⟨hafter, hlisted⟩ := mem_jsonFiles.mp hentry
  exact mem_jsonFiles.mpr ⟨hevicts.unchanged entry hafter, hlisted⟩

end Eviction

/-! ## Runs of saves -/

/-- A save: when it writes the file, how many entries of the directory are not json files then, and
what it saves. -/
structure SaveCall where
  now : ℕ
  others : ℕ
  domain : String
  result : WhoisResult

/-- What the saves of a process leave behind. -/
structure Tally (ι : Type) where
  saveCount : ℕ
  files : CacheFiles ι

variable {ι : Type} [DecidableEq ι] (place : Directory ι) (json : Codec WhoisCacheEntry)

/-- The files once a save has written its own. -/
def afterWrite (call : SaveCall) (files : CacheFiles ι) : CacheFiles ι :=
  match place.fileOf call.domain with
  | none => files
  | some file =>
      files.insert file
        { content := json.encode (newEntry call.now call.domain call.result)
          modified := call.now }

/-- The entries that the directory has once a save has written its file. -/
def existingEntries (call : SaveCall) (files : CacheFiles ι) : ℕ :=
  (jsonFiles place (afterWrite place json call files)).length + call.others

/-- A save after which the directory can be read, and its files can be removed. -/
def saveStep (tally : Tally ι) (call : SaveCall) : Tally ι :=
  let (_, count, files) :=
    save place json call.now (existingEntries place json call tally.files) (fun _ => false)
      call.domain call.result tally.saveCount tally.files
  { saveCount := count, files := files }

/-- Saves of one process, one after the other. -/
def runSaves (initial : CacheFiles ι) (calls : List SaveCall) : Tally ι :=
  calls.foldl (saveStep place json) { saveCount := 0, files := initial }

/-- What holds of the counter and the files of a process that started with so many json files.
Above the limit the counter tells how many saves ago the directory was scanned. -/
structure Bounded (initial : ℕ) (tally : Tally ι) : Prop where
  start : tally.saveCount = 0 → (jsonFiles place tally.files).length ≤ initial
  below : 0 < tally.saveCount → tally.saveCount ≤ place.maxEntries →
    (jsonFiles place tally.files).length ≤ tally.saveCount
  above : place.maxEntries < tally.saveCount →
    (jsonFiles place tally.files).length ≤
      max place.maxEntries initial + sinceScan place.maxEntries tally.saveCount

variable {place json} {initial : ℕ} {tally : Tally ι} {call : SaveCall}

/-- A write adds one file at most. -/
theorem length_jsonFiles_afterWrite_le (call : SaveCall) (files : CacheFiles ι) :
    (jsonFiles place (afterWrite place json call files)).length ≤
      (jsonFiles place files).length + 1 := by
  unfold afterWrite
  cases heq : place.fileOf call.domain with
  | none => exact Nat.le_succ _
  | some file =>
      unfold jsonFiles
      rw [AList.entries_insert, List.filter_cons]
      have hrest := ((List.kerase_sublist file files.entries).filter
        fun entry => place.lists entry.1).length_le
      split
      · exact Nat.succ_le_succ hrest
      · exact Nat.le_succ_of_le hrest

/-- A save writes its file and counts, and then it may scan the directory. -/
theorem saveStep_of_fileOf {file : ι} (hfile : place.fileOf call.domain = some file) :
    saveStep place json tally call =
      let written := afterWrite place json call tally.files
      let count := nextSaveCount tally.saveCount (existingEntries place json call tally.files)
      { saveCount := count
        files :=
          if shouldEnforce place.maxEntries count then
            enforceCacheLimit place (fun _ => false) written
          else written } := by
  unfold saveStep save afterWrite
  rw [hfile]

/-- A save whose file name the system refuses does nothing. -/
theorem saveStep_of_fileOf_none (hfile : place.fileOf call.domain = none) :
    saveStep place json tally call = tally := by
  unfold saveStep save
  rw [hfile]

/-- The counter after a save is one more, or what the directory held at the first save. -/
theorem nextSaveCount_cases (saveCount existing : ℕ) :
    (0 < saveCount ∧ nextSaveCount saveCount existing = saveCount + 1) ∨
      (saveCount = 0 ∧ existing ≤ 1 ∧ nextSaveCount saveCount existing = 1) ∨
      (saveCount = 0 ∧ 1 < existing ∧ nextSaveCount saveCount existing = existing) := by
  unfold nextSaveCount
  split
  case isTrue h => exact .inr (.inr ⟨by omega, h.2, rfl⟩)
  case isFalse h =>
    rcases Nat.eq_zero_or_pos saveCount with hzero | hpos
    · exact .inr (.inl ⟨hzero, by omega, by omega⟩)
    · exact .inl ⟨hpos, rfl⟩

variable (json tally) in
/-- What a save does to the counter and to the number of json files. -/
theorem length_jsonFiles_saveStep {file : ι} (hfile : place.fileOf call.domain = some file) :
    (saveStep place json tally call).saveCount =
        nextSaveCount tally.saveCount (existingEntries place json call tally.files) ∧
      (jsonFiles place (saveStep place json tally call).files).length ≤
        (jsonFiles place tally.files).length + 1 ∧
      (jsonFiles place (saveStep place json tally call).files).length ≤
        existingEntries place json call tally.files ∧
      (shouldEnforce place.maxEntries (saveStep place json tally call).saveCount = true →
        (jsonFiles place (saveStep place json tally call).files).length ≤ place.maxEntries) := by
  rw [saveStep_of_fileOf hfile]
  extract_lets written count
  have hwritten : (jsonFiles place written).length ≤ (jsonFiles place tally.files).length + 1 :=
    length_jsonFiles_afterWrite_le call tally.files
  have hexisting : (jsonFiles place written).length ≤
      existingEntries place json call tally.files := Nat.le_add_right _ _
  refine ⟨rfl, ?_⟩
  dsimp only
  split
  case isTrue =>
    have hle : (jsonFiles place (enforceCacheLimit place (fun _ => false) written)).length ≤
        (jsonFiles place written).length := length_jsonFiles_enforceCacheLimit_le
    exact ⟨Nat.le_trans hle hwritten, Nat.le_trans hle hexisting,
      fun _ => (evicts_enforceCacheLimit place written).le_maxEntries⟩
  case isFalse hskip => exact ⟨hwritten, hexisting, fun henforce => absurd henforce hskip⟩

/-- One save keeps the bound. -/
theorem bounded_saveStep (h : Bounded place initial tally) (call : SaveCall) :
    Bounded place initial (saveStep place json tally call) := by
  cases hfile : place.fileOf call.domain with
  | none => rwa [saveStep_of_fileOf_none hfile]
  | some file =>
      obtain ⟨hcount, hone, hexisting, hscanned⟩ :=
        length_jsonFiles_saveStep json tally hfile
      set next := saveStep place json tally call
      have hscan : place.maxEntries < next.saveCount →
          sinceScan place.maxEntries next.saveCount = 0 →
            (jsonFiles place next.files).length ≤ place.maxEntries :=
        fun hover hzero => hscanned (shouldEnforce_of_sinceScan hover hzero)
      rcases nextSaveCount_cases tally.saveCount (existingEntries place json call tally.files)
        with ⟨hpos, hnext⟩ | ⟨hzero, hfew, hnext⟩ | ⟨hzero, hmany, hnext⟩
      · -- A later save counts one more, like the directory.
        rw [hnext] at hcount
        refine ⟨by omega, fun _ hbelow => ?_, fun hover => ?_⟩
        · have hbefore := h.below hpos (by omega)
          omega
        · rcases Nat.lt_or_ge place.maxEntries tally.saveCount with hlt | hge
          · have hbefore := h.above hlt
            rcases sinceScan_succ hlt with hreset | hgrown
            · rw [← hcount] at hreset
              have hfits := hscan hover hreset
              omega
            · rw [← hcount] at hgrown
              omega
          · -- The save that passes the limit scans the directory.
            have hfirst : next.saveCount = place.maxEntries + 1 := by omega
            have hfits := hscan hover (hfirst ▸ sinceScan_first place.maxEntries)
            omega
      · -- The first save of an empty directory scans it.
        rw [hnext] at hcount
        have hfits := hscanned (by rw [hcount]; exact shouldEnforce_one _)
        exact ⟨by omega, fun _ _ => by omega, fun _ => by omega⟩
      · -- The first save of a directory with entries takes over their number.
        rw [hnext] at hcount
        have hbefore := h.start hzero
        refine ⟨by omega, fun _ _ => by omega, fun hover => ?_⟩
        rcases Nat.eq_zero_or_pos (sinceScan place.maxEntries next.saveCount) with hnow | hlater
        · have hfits := hscan hover hnow
          omega
        · omega

variable (place json) in
/-- Saves keep the bound. -/
theorem bounded_runSaves (files : CacheFiles ι) (calls : List SaveCall) :
    Bounded place (jsonFiles place files).length (runSaves place json files calls) := by
  refine List.foldlRecOn calls (saveStep place json) ⟨fun _ => Nat.le_refl _, ?_, ?_⟩ ?_
  · intro hpos
    exact absurd hpos (Nat.lt_irrefl 0)
  · intro hover
    exact absurd hover (Nat.not_lt_zero _)
  · exact fun tally htally call _ => bounded_saveStep htally call

/-- The counter never passes the entries found at the start and the saves together, so it stays
within its machine integer. -/
theorem saveCount_runSaves_le (files : CacheFiles ι) {calls : List SaveCall} {others : ℕ}
    (hothers : ∀ call ∈ calls, call.others ≤ others) :
    (runSaves place json files calls).saveCount ≤
      (jsonFiles place files).length + others + calls.length := by
  induction calls using List.reverseRecOn with
  | nil => exact Nat.zero_le _
  | append_singleton calls call ih =>
      have hbefore := ih fun earlier hearlier => hothers earlier (List.mem_append_left _ hearlier)
      have hfew : call.others ≤ others := hothers call (by simp)
      have hstart := (bounded_runSaves place json files calls).start
      rw [List.length_append, List.length_singleton]
      rw [runSaves, List.foldl_append, List.foldl_cons, List.foldl_nil, ← runSaves]
      set tally := runSaves place json files calls
      cases hfile : place.fileOf call.domain with
      | none =>
          rw [saveStep_of_fileOf_none hfile]
          omega
      | some file =>
          have hwritten : (jsonFiles place (afterWrite place json call tally.files)).length ≤
              (jsonFiles place tally.files).length + 1 :=
            length_jsonFiles_afterWrite_le call tally.files
          have hcount := (length_jsonFiles_saveStep json tally hfile).1
          have hexisting : existingEntries place json call tally.files =
              (jsonFiles place (afterWrite place json call tally.files)).length + call.others := rfl
          rcases nextSaveCount_cases tally.saveCount
              (existingEntries place json call tally.files)
            with ⟨hpos, hnext⟩ | ⟨hzero, hone, hnext⟩ | ⟨hzero, hmany, hnext⟩
          · omega
          · omega
          · have hfiles := hstart hzero
            omega

/-- In every run of saves of a process, from every content of the cache directory, the number of
json files is bounded after each save. Each scan leaves at most as many as the limit, by removing
the oldest ones, and no subtraction on the counter goes below zero. -/
theorem cache_directory_bounded (place : Directory ι) (json : Codec WhoisCacheEntry)
    (files : CacheFiles ι) (calls : List SaveCall) :
    (jsonFiles place (runSaves place json files calls).files).length ≤
        max place.maxEntries (jsonFiles place files).length + enforceIntervalWhenOverLimit ∧
      (∀ before : CacheFiles ι,
        Evicts place before (enforceCacheLimit place (fun _ => false) before)) ∧
      ∀ count, shouldEnforceChecked place.maxEntries count =
        some (shouldEnforce place.maxEntries count) := by
  refine ⟨?_, evicts_enforceCacheLimit place, shouldEnforceChecked_eq place.maxEntries⟩
  have hbounded := bounded_runSaves place json files calls
  set tally := runSaves place json files calls
  rcases Nat.eq_zero_or_pos tally.saveCount with hzero | hpos
  · have hfiles := hbounded.start hzero
    omega
  · rcases Nat.lt_or_ge place.maxEntries tally.saveCount with hover | hbelow
    · have hfiles := hbounded.above hover
      have hsince := sinceScan_lt place.maxEntries tally.saveCount
      omega
    · have hfiles := hbounded.below hpos hbelow
      omega

end DomainStatus.Whois
