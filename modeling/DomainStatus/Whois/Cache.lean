import DomainStatus.Lib.UnixPath
import DomainStatus.Utils.Cache
import DomainStatus.Whois.EntryText
import Mathlib.Data.List.AList
import Mathlib.Data.Set.Basic

/-!
# The WHOIS cache

One file for each domain in a cache directory, after `src/whois/cache.rs`. The name of the file is
the domain with `_` for each dot. Which paths are the same file is up to the file system. Read
`files_save` and `files_load` first. By `whois_isolated_iff` a load returns what was saved for its
own domain exactly when no two domains share a file.
-/

namespace DomainStatus.Whois

/-- `CACHE_TTL_SECS`. -/
def cacheTtlSecs : ℕ :=
  7 * 24 * 60 * 60

/-- `MAX_WHOIS_CACHE_FILE_SIZE`. -/
def maxWhoisCacheFileSize : ℕ :=
  512 * 1024

/-- A full directory is scanned at most after this many saves. -/
def enforceIntervalWhenOverLimit : ℕ :=
  1000

/-- A file with the time of its last change. -/
structure StoredFile where
  content : String
  modified : ℕ

/-- The cache files, in the order in which the directory lists them. -/
abbrev CacheFiles (ι : Type) :=
  AList fun _ : ι => StoredFile

/-- A cache directory and the file system it is on. -/
structure Directory (ι : Type) where
  cachePath : String
  /-- The file of a path, unless the system refuses the path. -/
  locate : String → Option ι
  /-- Whether the directory itself lists the file, with the extension `json`. -/
  lists : ι → Bool
  maxEntries : ℕ

/-- A directory that keeps at least one entry. -/
structure Place (ι : Type) extends Directory ι where
  maxEntries_pos : 0 < maxEntries

instance {ι : Type} : Coe (Place ι) (Directory ι) :=
  ⟨Place.toDirectory⟩

/-- The path of the cache file of a domain. -/
def cacheFile (cachePath domain : String) : String :=
  UnixPath.join cachePath
    (String.ofList (domain.toList.map fun c => if c = '.' then '_' else c) ++ ".json")

variable {ι : Type} [DecidableEq ι]

section Calls

variable (place : Directory ι) (json : Codec WhoisCacheEntry)

/-- The cache file of a domain. -/
def Directory.fileOf (domain : String) : Option ι :=
  place.locate (cacheFile place.cachePath domain)

/-- Removes a file, unless the system keeps it. -/
def removeFile (keeps : ι → Bool) (files : CacheFiles ι) (file : ι) : CacheFiles ι :=
  if keeps file then files else files.erase file

/-- Looks up the entry of a domain. An oversized or expired file is removed. -/
def load (now : ℕ) (keeps : ι → Bool) (domain : String) (files : CacheFiles ι) :
    Except String (Option WhoisCacheEntry) × CacheFiles ι :=
  match place.fileOf domain with
  | none => (.ok none, files)
  | some file =>
      match files.lookup file with
      | none => (.ok none, files)
      | some stored =>
          if maxWhoisCacheFileSize < stored.content.utf8ByteSize then
            (.ok none, removeFile keeps files file)
          else
            match json.decode stored.content with
            | .error _ => (.error "Failed to parse cache file", files)
            | .ok entry =>
                -- An entry from the future has age zero.
                if Cache.durationExceedsTtl (now - entry.cachedAt) cacheTtlSecs then
                  (.ok none, removeFile keeps files file)
                else (.ok (some entry), files)

/-- Removes the files that were not modified for the longest time. -/
def enforceCacheLimit (keeps : ι → Bool) (files : CacheFiles ι) : CacheFiles ι :=
  let entries := files.entries.filter fun entry => place.lists entry.1
  if entries.length ≤ place.maxEntries then files
  else
    let oldest := (entries.mergeSort fun left right => left.2.modified ≤ right.2.modified).take
      (entries.length - place.maxEntries)
    oldest.foldl (fun files entry => removeFile keeps files entry.1) files

/-- The number of this save. The first one of a process starts from the number of entries that the
directory has. -/
def nextSaveCount (saveCount existing : ℕ) : ℕ :=
  if saveCount + 1 = 1 ∧ 1 < existing then existing else saveCount + 1

/-- Whether the save with this number scans the directory. -/
def shouldEnforce (maxEntries count : ℕ) : Bool :=
  let overLimit := decide (maxEntries ≤ count)
  let firstTimeOver := overLimit && decide (count - maxEntries ≤ 1)
  let intervalHit := overLimit && decide (maxEntries < count) &&
    (count - maxEntries - 1) % enforceIntervalWhenOverLimit == 0
  count == 1 || firstTimeOver || intervalHit

/-- The entry that a save writes. -/
def newEntry (now : ℕ) (domain : String) (result : WhoisResult) : WhoisCacheEntry :=
  { result := .ofResult result, cachedAt := now, domain := domain }

/-- Saves the result for a domain. The number of saves of the process goes with the files. -/
def save (now existing : ℕ) (keeps : ι → Bool) (domain : String) (result : WhoisResult)
    (saveCount : ℕ) (files : CacheFiles ι) : Except String Unit × ℕ × CacheFiles ι :=
  match place.fileOf domain with
  | none => (.error "Failed to write cache file", saveCount, files)
  | some file =>
      let written := files.insert file
        { content := json.encode (newEntry now domain result), modified := now }
      let count := nextSaveCount saveCount existing
      let after :=
        if shouldEnforce place.maxEntries count then enforceCacheLimit place keeps written
        else written
      (.ok (), count, after)

end Calls

variable (place : Place ι) (json : Codec WhoisCacheEntry)

/-- The directory, the number of saves of the process, and the entry of the last save for each
domain that wrote one. -/
structure State (ι : Type) where
  files : CacheFiles ι
  saveCount : ℕ
  latest : String → Option WhoisCacheEntry

/-- A call, or the start of another process. The number of existing entries is what the directory
lists at the call, and some files may not be removable. -/
inductive Event (ι : Type) where
  | load (now : ℕ) (keeps : ι → Bool) (domain : String)
  | save (now existing : ℕ) (keeps : ι → Bool) (domain : String) (result : WhoisResult)
  | restart

/-- The domain of a call. -/
def Event.domain? : Event ι → Option String
  | .load _ _ domain => some domain
  | .save _ _ _ domain _ => some domain
  | .restart => none

/-- A load or a save. -/
def step (state : State ι) : Event ι → State ι
  | .load now keeps domain =>
      { state with files := (load place json now keeps domain state.files).2 }
  | .save now existing keeps domain result =>
      let (_, count, files) :=
        save place json now existing keeps domain result state.saveCount state.files
      { files := files
        saveCount := count
        latest :=
          if (place.fileOf domain).isSome then
            Function.update state.latest domain (some (newEntry now domain result))
          else state.latest }
  | .restart => { state with saveCount := 0 }

/-- The state after some events, from an empty directory. -/
def run (events : List (Event ι)) : State ι :=
  events.foldl (step place json) { files := ∅, saveCount := 0, latest := fun _ => none }

/-- What a load would return. -/
def peek (state : State ι) (now : ℕ) (domain : String) : Except String (Option WhoisCacheEntry) :=
  (load place json now (fun _ => false) domain state.files).1

/-- The domain has no cache file. -/
def Missing (state : State ι) (domain : String) : Prop :=
  ∀ file, place.fileOf domain = some file → state.files.lookup file = none

/-- A load returns only what the last save for its domain wrote, and a save for another domain
changes nothing about it, unless it evicts the file. -/
def Isolated (domains : Set String) (state : State ι) : Prop :=
  (∀ domain ∈ domains, ∀ now entry, peek place json state now domain = .ok (some entry) →
    state.latest domain = some entry) ∧
  ∀ domain ∈ domains, ∀ other ∈ domains, domain ≠ other →
    ∀ (now savedAt existing : ℕ) (keeps : ι → Bool) (result : WhoisResult),
      let next := step place json state (.save savedAt existing keeps other result)
      peek place json next now domain = peek place json state now domain ∨
        Missing place next domain

/-- Different domains have different files, as far as an entry of theirs can be read back. -/
def Separates (domains : Set String) : Prop :=
  ∀ saved ∈ domains, ∀ loaded ∈ domains, ∀ file,
    place.fileOf saved = some file → place.fileOf loaded = some file →
      (∃ now result,
        (json.encode (newEntry now saved result)).utf8ByteSize ≤ maxWhoisCacheFileSize) →
        saved = loaded

/-! ## What the calls do to the files -/

section Files

variable {place : Directory ι} {json} {keeps : ι → Bool} {files : CacheFiles ι} {file : ι}
  {stored : StoredFile}

/-- Removing files adds none. -/
theorem lookup_removeFile {gone : ι} (h : (removeFile keeps files gone).lookup file = some stored) :
    files.lookup file = some stored := by
  unfold removeFile at h
  split at h
  · exact h
  · by_cases hfile : file = gone
    · rw [hfile, AList.lookup_erase] at h
      cases h
    · rwa [AList.lookup_erase_ne hfile] at h

/-- Removing several files adds none. -/
theorem lookup_foldl_removeFile {gone : List (Sigma fun _ : ι => StoredFile)}
    (h : (gone.foldl (fun files entry => removeFile keeps files entry.1) files).lookup file =
      some stored) : files.lookup file = some stored := by
  induction gone generalizing files with
  | nil => exact h
  | cons entry rest ih => exact lookup_removeFile (ih h)

/-- The eviction leaves a file as it is or removes it. -/
theorem lookup_enforceCacheLimit
    (h : (enforceCacheLimit place keeps files).lookup file = some stored) :
    files.lookup file = some stored := by
  unfold enforceCacheLimit at h
  extract_lets entries oldest at h
  split at h
  · exact h
  · exact lookup_foldl_removeFile h

/-- A load leaves a file as it is or removes it. -/
theorem files_load {now : ℕ} {domain : String}
    (h : (load place json now keeps domain files).2.lookup file = some stored) :
    files.lookup file = some stored := by
  unfold load at h
  split at h
  · exact h
  · split at h
    · exact h
    · split at h
      · exact lookup_removeFile h
      · split at h
        · exact h
        · split at h
          · exact lookup_removeFile h
          · exact h

/-- A load returns the entry that the file was written for, when it is small and young enough. -/
theorem load_stored {now : ℕ} {domain : String} {entry : WhoisCacheEntry}
    (hfile : place.fileOf domain = some file) (hstored : files.lookup file = some stored)
    (hcontent : stored.content = json.encode entry)
    (hsize : (json.encode entry).utf8ByteSize ≤ maxWhoisCacheFileSize)
    (hfresh : Cache.durationExceedsTtl (now - entry.cachedAt) cacheTtlSecs = false) :
    load place json now keeps domain files = (.ok (some entry), files) := by
  simp only [load, hfile, hstored, hcontent, if_neg (Nat.not_lt.mpr hsize), Codec.decode_encode,
    hfresh, Bool.false_eq_true, if_false]

/-- After a save the file of its domain has the new entry, and the other files are as they were, as
far as they are there. -/
theorem files_save {now existing saveCount : ℕ} {domain : String} {result : WhoisResult}
    (h : (save place json now existing keeps domain result saveCount files).2.2.lookup file =
      some stored) :
    (place.fileOf domain = some file ∧ stored.content = json.encode (newEntry now domain result)) ∨
      (place.fileOf domain ≠ some file ∧ files.lookup file = some stored) := by
  unfold save at h
  split at h
  next hnone => exact .inr ⟨by simp [hnone], h⟩
  next target htarget =>
    have hwritten : (files.insert target
        ⟨json.encode (newEntry now domain result), now⟩).lookup file = some stored := by
      dsimp only at h
      split at h
      · exact lookup_enforceCacheLimit h
      · exact h
    by_cases hfile : file = target
    · subst hfile
      rw [AList.lookup_insert, Option.some.injEq] at hwritten
      exact .inl ⟨htarget, by rw [← hwritten]⟩
    · rw [AList.lookup_insert_ne hfile] at hwritten
      refine .inr ⟨fun hsame => hfile ?_, hwritten⟩
      rw [htarget, Option.some.injEq] at hsame
      exact hsame.symm

/-- The first save of a process into an empty directory writes its file and does no more. -/
theorem save_first (hpos : 0 < place.maxEntries) {now : ℕ} {domain : String}
    {result : WhoisResult} (hfile : place.fileOf domain = some file) :
    save place json now 0 keeps domain result 0 ∅ =
      (.ok (), 1, (∅ : CacheFiles ι).insert file
        ⟨json.encode (newEntry now domain result), now⟩) := by
  have hfew : ((((∅ : CacheFiles ι).insert file
      ⟨json.encode (newEntry now domain result), now⟩).entries.filter
        fun entry => place.lists entry.1).length ≤ place.maxEntries) :=
    Nat.le_trans (List.length_filter_le _ _) hpos
  have hcount : nextSaveCount 0 0 = 1 := rfl
  simp only [save, hfile, hcount, enforceCacheLimit, if_pos hfew, ite_self]

end Files

/-! ## Runs -/

section Runs

variable {place json} {domains : Set String} {state : State ι}

/-- A file is what the last save for its domain wrote. -/
def Recorded (place : Place ι) (json : Codec WhoisCacheEntry) (domains : Set String)
    (state : State ι) : Prop :=
  ∀ domain ∈ domains, ∀ file, place.fileOf domain = some file →
    ∀ stored, state.files.lookup file = some stored →
      stored.content.utf8ByteSize ≤ maxWhoisCacheFileSize →
        ∃ now result, state.latest domain = some (newEntry now domain result) ∧
          stored.content = json.encode (newEntry now domain result)

/-- One step keeps the record of what was stored. -/
theorem recorded_step (hseparates : Separates place json domains)
    (h : Recorded place json domains state) {event : Event ι}
    (hevent : ∀ domain ∈ event.domain?, domain ∈ domains) :
    Recorded place json domains (step place json state event) := by
  intro domain hdomain file hfile stored hstored hsize
  cases event with
  | restart => exact h domain hdomain file hfile stored hstored hsize
  | load now keeps loaded => exact h domain hdomain file hfile stored (files_load hstored) hsize
  | save now existing keeps saved result =>
      have hmem : saved ∈ domains := hevent saved rfl
      rcases files_save hstored with ⟨hsaved, hcontent⟩ | ⟨hother, hbefore⟩
      · -- A file that can be read back belongs to the domain of the save alone.
        obtain rfl := hseparates saved hmem domain hdomain file hsaved hfile
          ⟨now, result, hcontent ▸ hsize⟩
        exact ⟨now, result, by simp [step, hsaved], hcontent⟩
      · obtain ⟨savedAt, found, hlatest, hcontent⟩ :=
          h domain hdomain file hfile stored hbefore hsize
        have hne : domain ≠ saved := fun heq => hother (heq ▸ hfile)
        refine ⟨savedAt, found, ?_, hcontent⟩
        simp only [step]
        split
        · rwa [Function.update_of_ne hne]
        · exact hlatest

/-- What a load returns is in the file of its domain. -/
theorem peek_eq_ok_some {now : ℕ} {domain : String} {entry : WhoisCacheEntry}
    (h : peek place json state now domain = .ok (some entry)) :
    ∃ file stored, place.fileOf domain = some file ∧ state.files.lookup file = some stored ∧
      stored.content.utf8ByteSize ≤ maxWhoisCacheFileSize ∧
      json.decode stored.content = .ok entry := by
  unfold peek load at h
  split at h
  · cases h
  next file hfile =>
    cases hstored : AList.lookup file state.files with
    | none =>
        rw [hstored] at h
        cases h
    | some stored =>
        rw [hstored] at h
        dsimp only at h
        split at h
        case isTrue => cases h
        case isFalse hsize =>
          cases hfound : json.decode stored.content with
          | error _ =>
              rw [hfound] at h
              cases h
          | ok found =>
              rw [hfound] at h
              dsimp only at h
              split at h
              · cases h
              · cases h
                exact ⟨file, stored, hfile, hstored, Nat.le_of_not_lt hsize, hfound⟩

/-- What is peeked is what was stored last. -/
theorem Recorded.latest_of_peek (h : Recorded place json domains state) {domain : String}
    (hdomain : domain ∈ domains) {now : ℕ} {entry : WhoisCacheEntry}
    (hpeek : peek place json state now domain = .ok (some entry)) :
    state.latest domain = some entry := by
  obtain ⟨file, stored, hfile, hstored, hsize, hdecode⟩ := peek_eq_ok_some hpeek
  obtain ⟨savedAt, result, hlatest, hcontent⟩ := h domain hdomain file hfile stored hstored hsize
  rw [hcontent, Codec.decode_encode, Except.ok.injEq] at hdecode
  rw [hlatest, hdecode]

/-- What a load returns depends on the file of its domain alone. -/
theorem peek_congr {next : State ι} {domain : String}
    (h : ∀ file, place.fileOf domain = some file →
      next.files.lookup file = state.files.lookup file) (now : ℕ) :
    peek place json next now domain = peek place json state now domain := by
  unfold peek load
  cases hfile : place.fileOf domain with
  | none => rfl
  | some file =>
      dsimp only
      rw [h file hfile]
      split
      · rfl
      · split
        · rfl
        · split
          · rfl
          · split <;> rfl

/-- A load returns nothing when the file of its domain is oversized. -/
theorem peek_eq_ok_none {domain : String}
    (h : ∀ file stored, place.fileOf domain = some file → state.files.lookup file = some stored →
      maxWhoisCacheFileSize < stored.content.utf8ByteSize) (now : ℕ) :
    peek place json state now domain = .ok none := by
  unfold peek load
  cases hfile : place.fileOf domain with
  | none => rfl
  | some file =>
      dsimp only
      cases hstored : AList.lookup file state.files with
      | none => rfl
      | some stored =>
          dsimp only
          rw [if_pos (h file stored hfile hstored)]

/-- A save for another domain. -/
theorem Recorded.peek_save (hseparates : Separates place json domains)
    (h : Recorded place json domains state) {domain other : String} (hdomain : domain ∈ domains)
    (hother : other ∈ domains) (hne : domain ≠ other) (now savedAt existing : ℕ) (keeps : ι → Bool)
    (result : WhoisResult) :
    peek place json (step place json state (.save savedAt existing keeps other result)) now domain =
        peek place json state now domain ∨
      Missing place (step place json state (.save savedAt existing keeps other result)) domain := by
  set next := step place json state (.save savedAt existing keeps other result) with hnext
  cases hfile : place.fileOf domain with
  | none => exact .inl (peek_congr (fun file hsome => by rw [hfile] at hsome; cases hsome) now)
  | some file =>
      cases hafter : next.files.lookup file with
      | none =>
          right
          intro found hfound
          rw [hfile, Option.some.injEq] at hfound
          rw [← hfound, hafter]
      | some stored =>
          left
          rcases files_save hafter with ⟨hshared, hcontent⟩ | ⟨-, hbefore⟩
          · -- The domains share a file, so no entry of either can be read back.
            rw [peek_eq_ok_none, peek_eq_ok_none]
            · intro found before hfound hstored
              rw [hfile, Option.some.injEq] at hfound
              subst hfound
              by_contra hsize
              obtain ⟨at', found, -, hfit⟩ :=
                h domain hdomain file hfile before hstored (Nat.le_of_not_lt hsize)
              exact hne (hseparates domain hdomain other hother file hfile hshared
                ⟨at', found, hfit ▸ Nat.le_of_not_lt hsize⟩)
            · intro found after hfound hstored
              rw [hfile, Option.some.injEq] at hfound
              subst hfound
              rw [hafter, Option.some.injEq] at hstored
              subst hstored
              by_contra hsize
              exact hne (hseparates other hother domain hdomain file hshared hfile
                ⟨savedAt, result, hcontent ▸ Nat.le_of_not_lt hsize⟩).symm
          · refine peek_congr (fun found hfound => ?_) now
            rw [hfile, Option.some.injEq] at hfound
            rw [← hfound, hafter, hbefore]

/-- A run keeps the record of what was stored. -/
theorem recorded_run (hseparates : Separates place json domains) {events : List (Event ι)}
    (hevents : ∀ event ∈ events, ∀ domain ∈ event.domain?, domain ∈ domains) :
    Recorded place json domains (run place json events) := by
  refine List.foldlRecOn events (step place json) (motive := Recorded place json domains) ?_ ?_
  · intro domain _ file _ stored hstored
    simp at hstored
  · exact fun state hstate event hevent => recorded_step hseparates hstate (hevents event hevent)

/-- After the first save ever, the entry can be loaded for every domain with the same file. -/
theorem peek_first_save {saved loaded : String} {file : ι} (hsaved : place.fileOf saved = some file)
    (hloaded : place.fileOf loaded = some file) {now : ℕ} {result : WhoisResult}
    (hsize : (json.encode (newEntry now saved result)).utf8ByteSize ≤ maxWhoisCacheFileSize)
    (keeps : ι → Bool) :
    peek place json (run place json [.save now 0 keeps saved result]) now loaded =
      .ok (some (newEntry now saved result)) := by
  have hfiles : (run place json [.save now 0 keeps saved result]).files =
      (∅ : CacheFiles ι).insert file ⟨json.encode (newEntry now saved result), now⟩ := by
    simp only [run, List.foldl_cons, List.foldl_nil, step,
      save_first place.maxEntries_pos hsaved]
  have hfresh : Cache.durationExceedsTtl (now - (newEntry now saved result).cachedAt)
      cacheTtlSecs = false := by
    simp [newEntry, Cache.durationExceedsTtl, cacheTtlSecs]
  rw [peek, load_stored hloaded (by rw [hfiles, AList.lookup_insert]) rfl hsize hfresh]

end Runs

/-- In every run over a set of domains each load returns what the last save for its own domain
wrote, and saves for other domains do not change it. This holds exactly when no two of the domains
share a file. -/
theorem whois_isolated_iff (place : Place ι) (json : Codec WhoisCacheEntry) (domains : Set String) :
    (∀ events : List (Event ι), (∀ event ∈ events, ∀ domain ∈ event.domain?, domain ∈ domains) →
      Isolated place json domains (run place json events)) ↔
      Separates place json domains := by
  constructor
  · intro h saved hsaved loaded hloaded file hfile hshared ⟨now, result, hsize⟩
    by_contra hne
    obtain ⟨hlatest, -⟩ := h [.save now 0 (fun _ => false) saved result] (by
      intro event hevent domain hdomain
      rw [List.mem_singleton.mp hevent] at hdomain
      cases hdomain
      exact hsaved)
    have hfound := hlatest loaded hloaded now _ (peek_first_save hfile hshared hsize _)
    simp [run, step, hfile, Function.update_of_ne (Ne.symm hne)] at hfound
  · intro hseparates events hevents
    have hrecorded := recorded_run hseparates hevents
    refine ⟨fun domain hdomain now entry hpeek => hrecorded.latest_of_peek hdomain hpeek,
      fun domain hdomain other hother hne now savedAt existing keeps result => ?_⟩
    exact hrecorded.peek_save hseparates hdomain hother hne now savedAt existing keeps result

/-- A directory on a file system that tells all paths apart. -/
def plainPlace : Place String where
  cachePath := "/cache/whois"
  locate := some
  lists := fun _ => true
  maxEntries := 50000
  maxEntries_pos := by decide

/-- A save for one domain, and a load for another one whose file has the same name. -/
theorem whois_cache_shares_file :
    ¬ ∀ (place : Place String) (json : Codec WhoisCacheEntry) (domains : Set String)
      (events : List (Event String)),
      (∀ event ∈ events, ∀ domain ∈ event.domain?, domain ∈ domains) →
        Isolated place json domains (run place json events) := by
  intro h
  let result : WhoisResult := { registrar := some "Example Registrar" }
  have hsize : (prettyJson.encode (newEntry 0 "foo.co.uk" result)).utf8ByteSize ≤
      maxWhoisCacheFileSize := by
    rw [writesPretty_prettyJson, utf8ByteSize_toStringPretty]
    decide +kernel
  obtain ⟨hlatest, -⟩ := h plainPlace prettyJson Set.univ
    [.save 0 0 (fun _ => false) "foo.co.uk" result] (fun _ _ _ _ => trivial)
  have hfound := hlatest "foo_co.uk" trivial 0 _
    (peek_first_save
      (show plainPlace.fileOf "foo.co.uk" = some "/cache/whois/foo_co_uk.json" by decide +kernel)
      (by decide +kernel) hsize _)
  simp [run, step, Directory.fileOf, plainPlace] at hfound

end DomainStatus.Whois
