import DomainStatus.Fingerprint.Models
import DomainStatus.Lib.Fallible
import DomainStatus.Lib.Serde
import DomainStatus.Lib.UnixPath
import DomainStatus.Utils.Cache
import Mathlib.Data.List.Induction

/-!
# Rulesets on disk

The three files of a cached ruleset, after `src/fingerprint/ruleset/cache.rs`. A save replaces them
one by one and may stop after each of them. Read `loadFromCache_ok_iff` first: what a load returns.
By `load_consistent_iff` only the last save that wrote something decides whether the parts of a
loaded ruleset are from one save.
-/

namespace DomainStatus.Fingerprint

/-- The files in the directory of a cache key. -/
inductive CacheFile where
  | metadata | technologies | categories
  deriving DecidableEq

/-- The text of each file that is there. -/
abbrev CacheFiles :=
  CacheFile → Option String

/-- How the parts of a ruleset are written to their files. -/
structure RulesetJson where
  metadata : Codec FingerprintMetadata
  technologies : Codec (HashMap String Technology)
  categories : Codec (HashMap ℕ String)

/-- Time to live of a cached ruleset, `FINGERPRINT_CACHE_TTL_SECS`. -/
def fingerprintCacheTtlSecs : ℕ :=
  7 * 24 * 60 * 60

section

variable (json : RulesetJson)

/-- The file replacements of a save, in order. -/
def saveWrites (ruleset : FingerprintRuleset) : List (CacheFile × String) :=
  [(.metadata, json.metadata.encode ruleset.metadata),
    (.technologies, json.technologies.encode ruleset.technologies),
    (.categories, json.categories.encode ruleset.categories)]

/-- Saves a ruleset and stops after this many file replacements. -/
def saveToCache (ruleset : FingerprintRuleset) (writes : ℕ) (files : CacheFiles) : CacheFiles :=
  ((saveWrites json ruleset).take writes).foldl
    (fun files (file, text) => Function.update files file (some text)) files

/-- The categories of a cached ruleset, which may be missing. -/
def loadCategories (files : CacheFiles) : HashMap ℕ String :=
  match files .categories with
  | none => ∅
  | some text =>
      match json.categories.decode text with
      | .ok categories => categories
      | .error _ => ∅

/-- Loads the ruleset of a cache key when it is for the expected sources and fresh. -/
def loadFromCache (now : ℕ) (cacheDir cacheKey expectedSources : String) (files : CacheFiles) :
    Except String FingerprintRuleset :=
  match files .metadata, files .technologies with
  | some metadataJson, some technologiesJson => do
      let metadata ← json.metadata.decode metadataJson
      if metadata.source ≠ expectedSources then
        throw ("Cache source mismatch: expected '" ++ expectedSources ++ "', got '" ++
          metadata.source ++ "'")
      if Cache.cacheTtlExceeded now metadata.lastUpdated fingerprintCacheTtlSecs false then
        throw ("Cache expired for sources: " ++ expectedSources)
      let technologies ← json.technologies.decode technologiesJson
      return { technologies := technologies, categories := loadCategories json files,
               metadata := metadata }
  | _, _ =>
      throw ("Cache not found at " ++ UnixPath.join cacheDir cacheKey ++ " for sources: " ++
        expectedSources)

/-- The conditions under which a load succeeds, and its result. -/
theorem loadFromCache_ok_iff {now : ℕ} {cacheDir cacheKey expectedSources : String}
    {files : CacheFiles} {ruleset : FingerprintRuleset} :
    loadFromCache json now cacheDir cacheKey expectedSources files = .ok ruleset ↔
      (∃ text, files .metadata = some text ∧ json.metadata.decode text = .ok ruleset.metadata) ∧
      (∃ text, files .technologies = some text ∧
        json.technologies.decode text = .ok ruleset.technologies) ∧
      ruleset.categories = loadCategories json files ∧
      ruleset.metadata.source = expectedSources ∧
      Cache.cacheTtlExceeded now ruleset.metadata.lastUpdated fingerprintCacheTtlSecs false =
        false := by
  obtain ⟨technologies, categories, metadata⟩ := ruleset
  unfold loadFromCache
  cases hmetadata : files .metadata with
  | none => simp
  | some metadataJson =>
      cases htechnologies : files .technologies with
      | none => simp
      | some technologiesJson =>
          simp only [Except.bind_eq_ok, Except.guard_eq_ok, Except.pure_eq_ok, not_not,
            Bool.not_eq_true, FingerprintRuleset.mk.injEq, Option.some.injEq, exists_eq_left']
          constructor
          · intro h
            obtain ⟨value, hvalue, hsource, hfresh, read, hread, rfl, rfl, rfl⟩ := h
            exact ⟨hvalue, hread, rfl, hsource, hfresh⟩
          · intro h
            obtain ⟨hvalue, hread, rfl, hsource, hfresh⟩ := h
            exact ⟨metadata, hvalue, hsource, hfresh, technologies, hread, rfl, rfl, rfl⟩

/-- A save that is stopped after this many file replacements. -/
structure Save where
  ruleset : FingerprintRuleset
  writes : ℕ

/-- The files after a sequence of saves under one cache key. -/
def saveAll (saves : List Save) (files : CacheFiles) : CacheFiles :=
  saves.foldl (fun files save => saveToCache json save.ruleset save.writes files) files

/-- The last save that wrote something wrote all files, or no save got as far as the technologies.
-/
def Settled (writes : List ℕ) : Prop :=
  (∀ last ∈ (writes.filter (0 < ·)).getLast?, 3 ≤ last) ∨ ∀ count ∈ writes, count ≤ 1

variable {json}

section Saves

variable {ruleset : FingerprintRuleset} {writes : ℕ} {files : CacheFiles}

/-- The metadata file after some of the writes. -/
theorem saveToCache_metadata :
    saveToCache json ruleset writes files .metadata =
      if 0 < writes then some (json.metadata.encode ruleset.metadata) else files .metadata := by
  match writes with
  | 0 | 1 | 2 => rfl
  | n + 3 => simp [saveToCache, saveWrites, Function.update]

/-- The technologies file after some of the writes. -/
theorem saveToCache_technologies :
    saveToCache json ruleset writes files .technologies =
      if 1 < writes then some (json.technologies.encode ruleset.technologies)
      else files .technologies := by
  match writes with
  | 0 | 1 | 2 => rfl
  | n + 3 => simp [saveToCache, saveWrites, Function.update]

/-- The categories file after some of the writes. -/
theorem saveToCache_categories :
    saveToCache json ruleset writes files .categories =
      if 2 < writes then some (json.categories.encode ruleset.categories)
      else files .categories := by
  match writes with
  | 0 | 1 | 2 => rfl
  | n + 3 => simp [saveToCache, saveWrites, Function.update]

/-- A complete save leaves nothing of what was there. -/
theorem loadFromCache_saved {now : ℕ} {cacheDir cacheKey expectedSources : String}
    {loaded : FingerprintRuleset} (hwrites : 3 ≤ writes)
    (h : loadFromCache json now cacheDir cacheKey expectedSources
      (saveToCache json ruleset writes files) = .ok loaded) : loaded = ruleset := by
  obtain ⟨⟨metadataJson, hmetadata, hread⟩, ⟨technologiesJson, htechnologies, hread'⟩,
    hcategories, -, -⟩ := (loadFromCache_ok_iff json).mp h
  rw [saveToCache_metadata, if_pos (by omega), Option.some.injEq] at hmetadata
  rw [saveToCache_technologies, if_pos (by omega), Option.some.injEq] at htechnologies
  rw [loadCategories, saveToCache_categories, if_pos (by omega)] at hcategories
  rw [← hmetadata, Codec.decode_encode, Except.ok.injEq] at hread
  rw [← htechnologies, Codec.decode_encode, Except.ok.injEq] at hread'
  simp only [Codec.decode_encode] at hcategories
  obtain ⟨technologies, categories, metadata⟩ := loaded
  cases hread
  cases hread'
  cases hcategories
  rfl

end Saves

section Runs

variable {saves front back : List Save} {files : CacheFiles}

/-- Two lists of saves are carried out one after the other. -/
theorem saveAll_append (front back : List Save) (files : CacheFiles) :
    saveAll json (front ++ back) files = saveAll json back (saveAll json front files) :=
  List.foldl_append

/-- Saves that wrote nothing. -/
theorem saveAll_idle (hidle : ∀ save ∈ saves, save.writes = 0) :
    saveAll json saves files = files := by
  induction saves generalizing files with
  | nil => rfl
  | cons save rest ih =>
      rw [saveAll, List.foldl_cons, hidle save List.mem_cons_self]
      exact ih fun other hother => hidle other (List.mem_cons_of_mem save hother)

/-- The technologies are from one of the saves, once a save got that far. -/
theorem saveAll_technologies (json : RulesetJson) (files : CacheFiles)
    (hsaves : ∃ save ∈ saves, 2 ≤ save.writes) :
    ∃ save ∈ saves, saveAll json saves files .technologies =
      some (json.technologies.encode save.ruleset.technologies) := by
  induction saves using List.reverseRecOn with
  | nil => simp at hsaves
  | append_singleton front last ih =>
      rw [saveAll_append]
      simp only [saveAll, List.foldl_cons, List.foldl_nil, saveToCache_technologies]
      by_cases hlast : 1 < last.writes
      · exact ⟨last, by simp, by rw [if_pos hlast]⟩
      · obtain ⟨save, hsave, hwrites⟩ := hsaves
        have hfront : save ∈ front := by
          rcases List.mem_append.mp hsave with hfront | hback
          · exact hfront
          · rw [List.mem_singleton.mp hback] at hwrites
            omega
        obtain ⟨found, hfound, htext⟩ := ih ⟨save, hfront, hwrites⟩
        exact ⟨found, List.mem_append_left _ hfound, by rw [if_neg hlast]; exact htext⟩

/-- No save got as far as the technologies. -/
theorem saveAll_technologies_none (hsaves : ∀ save ∈ saves, save.writes ≤ 1) :
    saveAll json saves files .technologies = files .technologies := by
  induction saves generalizing files with
  | nil => rfl
  | cons save rest ih =>
      rw [saveAll, List.foldl_cons]
      refine (ih fun other hother => hsaves other (List.mem_cons_of_mem save hother)).trans ?_
      rw [saveToCache_technologies, if_neg (by have := hsaves save List.mem_cons_self; omega)]

/-- The last save that wrote something, and the saves after it. -/
theorem exists_last_save {writes : List ℕ} {last : ℕ}
    (h : (writes.filter (0 < ·)).getLast? = some last) :
    ∃ front back, writes = front ++ last :: back ∧ 0 < last ∧ ∀ count ∈ back, count = 0 := by
  induction writes using List.reverseRecOn with
  | nil => simp at h
  | append_singleton front count ih =>
      by_cases hcount : 0 < count
      · simp only [List.filter_append, List.filter_singleton, hcount, decide_true, cond_true,
          List.getLast?_append, List.getLast?_singleton, Option.some_or, Option.some.injEq] at h
        exact ⟨front, [], by rw [h], h ▸ hcount, by simp⟩
      · simp only [List.filter_append, List.filter_singleton, hcount, decide_false,
          cond_false, List.append_nil] at h
        obtain ⟨before, after, rfl, hlast, hafter⟩ := ih h
        refine ⟨before, after ++ [count], by simp, hlast, fun other hother => ?_⟩
        rcases List.mem_append.mp hother with hother | hother
        · exact hafter other hother
        · rw [List.mem_singleton.mp hother]
          omega

end Runs

/-- What a load returns when the last save that wrote something was complete, or when no save got as
far as the technologies. -/
theorem Settled.consistent {saves : List Save} (hsettled : Settled (saves.map Save.writes))
    {now : ℕ} {cacheDir cacheKey expectedSources : String} {loaded : FingerprintRuleset}
    (h : loadFromCache json now cacheDir cacheKey expectedSources
      (saveAll json saves fun _ => none) = .ok loaded) :
    ∃ save ∈ saves, 3 ≤ save.writes ∧ loaded = save.ruleset := by
  obtain ⟨⟨metadataJson, hmetadata, -⟩, ⟨technologiesJson, htechnologies, -⟩, -⟩ :=
    (loadFromCache_ok_iff json).mp h
  rcases hsettled with hlast | hfew
  · cases hfound : ((saves.map Save.writes).filter (0 < ·)).getLast? with
    | none =>
        -- Nothing was written, so there is nothing to load.
        rw [List.getLast?_eq_none_iff, List.filter_eq_nil_iff] at hfound
        have hidle : ∀ save ∈ saves, save.writes = 0 := fun save hsave => by
          simpa using hfound save.writes (List.mem_map_of_mem hsave)
        rw [saveAll_idle hidle] at hmetadata
        cases hmetadata
    | some last =>
        have hcomplete := hlast last hfound
        obtain ⟨front, back, hwrites, -, hback⟩ := exists_last_save hfound
        obtain ⟨saved, rest, rfl, -, hrest⟩ := List.map_eq_append_iff.mp hwrites
        obtain ⟨save, idle, rfl, rfl, rfl⟩ := List.map_eq_cons_iff.mp hrest
        refine ⟨save, by simp, hcomplete, ?_⟩
        have hidle : ∀ other ∈ idle, other.writes = 0 := fun other hother =>
          hback _ (List.mem_map_of_mem hother)
        rw [List.append_cons, saveAll_append, saveAll_idle hidle, saveAll_append] at h
        exact loadFromCache_saved hcomplete h
  · rw [saveAll_technologies_none fun save hsave =>
      hfew save.writes (List.mem_map_of_mem hsave)] at htechnologies
    cases htechnologies

/-- A ruleset without technologies. Rulesets of different versions differ in their metadata. -/
def rulesetOfVersion (version : String) : FingerprintRuleset where
  technologies := ∅
  metadata := { source := "", version := version, lastUpdated := 0 }

/-- The rulesets of the example are fresh. -/
theorem rulesetOfVersion_fresh {version : String} : Cache.cacheTtlExceeded 0
    (rulesetOfVersion version).metadata.lastUpdated fingerprintCacheTtlSecs false = false := by
  simp [rulesetOfVersion, Cache.cacheTtlExceeded, Cache.durationExceedsTtl, fingerprintCacheTtlSecs]

/-- Saves of one ruleset, with another one as the last that wrote something. A load then takes the
metadata of the last one. -/
theorem settled_of_consistent (writes : List ℕ)
    (h : ∀ saves : List Save, saves.map Save.writes = writes →
      ∀ loaded, loadFromCache json 0 "" "" "" (saveAll json saves fun _ => none) = .ok loaded →
        ∃ save ∈ saves, 3 ≤ save.writes ∧ loaded = save.ruleset) : Settled writes := by
  by_contra hsettled
  simp only [Settled, not_or, not_forall, Option.mem_def, exists_prop, Nat.not_le] at hsettled
  obtain ⟨⟨last, hlast, hfew⟩, count, hcount, hmany⟩ := hsettled
  obtain ⟨front, back, rfl, hpos, hback⟩ := exists_last_save hlast
  let old : ℕ → Save := fun writes => { ruleset := rulesetOfVersion "a", writes := writes }
  let new : Save := { ruleset := rulesetOfVersion "b", writes := last }
  let saves := front.map old ++ new :: back.map old
  have hwrites : saves.map Save.writes = front ++ last :: back := by
    simp [saves, old, new, Function.comp_def]
  have hfiles : saveAll json saves (fun _ => none) =
      saveToCache json new.ruleset last (saveAll json (front.map old) fun _ => none) := by
    have hidle : ∀ save ∈ back.map old, save.writes = 0 := fun save hsave => by
      obtain ⟨writes, hmem, rfl⟩ := List.mem_map.mp hsave
      exact hback writes hmem
    rw [show saves = (front.map old ++ [new]) ++ back.map old by simp [saves], saveAll_append,
      saveAll_idle hidle, saveAll_append]
    rfl
  obtain ⟨saved, hsaved, htechnologies⟩ := saveAll_technologies json (fun _ => none)
    (show ∃ save ∈ saves, 2 ≤ save.writes by
      rw [← hwrites] at hcount
      obtain ⟨save, hsave, rfl⟩ := List.mem_map.mp hcount
      exact ⟨save, hsave, hmany⟩)
  let loaded : FingerprintRuleset :=
    { technologies := saved.ruleset.technologies,
      categories := loadCategories json (saveAll json saves fun _ => none),
      metadata := (rulesetOfVersion "b").metadata }
  have hload : loadFromCache json 0 "" "" "" (saveAll json saves fun _ => none) = .ok loaded := by
    refine (loadFromCache_ok_iff json).mpr
      ⟨⟨json.metadata.encode loaded.metadata, ?_, Codec.decode_encode _ _⟩,
        ⟨_, htechnologies, Codec.decode_encode _ _⟩, rfl, rfl, rulesetOfVersion_fresh⟩
    rw [hfiles, saveToCache_metadata, if_pos hpos]
  obtain ⟨save, hsave, hcomplete, hequal⟩ := h saves hwrites loaded hload
  have hversion : save.ruleset.metadata.version = "b" := by rw [← hequal]; rfl
  simp only [saves, List.mem_append, List.mem_map, List.mem_cons] at hsave
  rcases hsave with ⟨writes, -, rfl⟩ | rfl | ⟨writes, -, rfl⟩
  · simp [old, rulesetOfVersion] at hversion
  · exact absurd hcomplete (Nat.not_le.mpr hfew)
  · simp [old, rulesetOfVersion] at hversion

/-- Whatever is saved, a load fails or returns a ruleset whose parts were all written by one save.
This holds exactly when the last save that wrote something was complete, or when no save got as far
as the technologies. -/
theorem load_consistent_iff (json : RulesetJson) (writes : List ℕ) :
    (∀ saves : List Save, saves.map Save.writes = writes →
      ∀ (now : ℕ) (cacheDir cacheKey expectedSources : String) (loaded : FingerprintRuleset),
        loadFromCache json now cacheDir cacheKey expectedSources
            (saveAll json saves fun _ => none) = .ok loaded →
          ∃ save ∈ saves, 3 ≤ save.writes ∧ loaded = save.ruleset) ↔
      Settled writes := by
  constructor
  · intro h
    exact settled_of_consistent writes fun saves hwrites loaded hload =>
      h saves hwrites 0 "" "" "" loaded hload
  · rintro hsettled saves rfl now cacheDir cacheKey expectedSources loaded hload
    exact hsettled.consistent hload

/-- There are codecs of the three files. -/
theorem rulesetJson_nonempty : Nonempty RulesetJson := by
  have hmap : ∀ (κ ν : Type) [Countable κ] [Countable ν], Countable (HashMap κ ν) := fun _ _ _ _ =>
    Function.Injective.countable (f := AList.entries) fun _ _ => AList.ext
  have hmetadata : Countable FingerprintMetadata :=
    Function.Injective.countable
      (f := fun metadata : FingerprintMetadata =>
        (metadata.source, metadata.version, metadata.lastUpdated))
      fun left right h => by cases left; cases right; simpa using h
  have htechnology : Countable Technology :=
    Function.Injective.countable
      (f := fun tech : Technology =>
        (tech.cats, tech.website, tech.headers, tech.cookies, tech.metaTags, tech.script,
          tech.scripts, tech.html, tech.url, tech.dns, tech.certIssuer, tech.js, tech.implies,
          tech.excludes, tech.requires, tech.requiresCategory))
      fun left right h => by cases left; cases right; simpa using h
  obtain ⟨metadata, -⟩ := Codec.exists_encode_eq (rulesetOfVersion "a").metadata "metadata"
  obtain ⟨technologies, -⟩ := Codec.exists_encode_eq (∅ : HashMap String Technology) "\x7b\x7d"
  obtain ⟨categories, -⟩ := Codec.exists_encode_eq (∅ : HashMap ℕ String) "\x7b\x7d"
  exact ⟨⟨metadata, technologies, categories⟩⟩

/-- A complete save, and another one that is stopped after its metadata. The load returns the new
metadata with the old technologies. -/
theorem load_mixes_saves :
    ¬ ∀ (json : RulesetJson) (saves : List Save) (now : ℕ)
      (cacheDir cacheKey expectedSources : String) (loaded : FingerprintRuleset),
      loadFromCache json now cacheDir cacheKey expectedSources
          (saveAll json saves fun _ => none) = .ok loaded →
        ∃ save ∈ saves, 3 ≤ save.writes ∧ loaded = save.ruleset := by
  intro h
  obtain ⟨json⟩ := rulesetJson_nonempty
  let old := rulesetOfVersion "a"
  let new := rulesetOfVersion "b"
  have hload : loadFromCache json 0 "" "" ""
      (saveAll json [⟨old, 3⟩, ⟨new, 1⟩] fun _ => none) =
        .ok { old with metadata := new.metadata } := by
    refine (loadFromCache_ok_iff json).mpr
      ⟨⟨_, rfl, Codec.decode_encode _ _⟩, ⟨_, rfl, Codec.decode_encode _ _⟩, ?_, rfl,
        rulesetOfVersion_fresh⟩
    simp [loadCategories, show saveAll json [⟨old, 3⟩, ⟨new, 1⟩] (fun _ => none) .categories =
      some (json.categories.encode old.categories) from rfl]
  obtain ⟨save, hsave, hcomplete, hequal⟩ := h json _ 0 "" "" "" _ hload
  have hversion : save.ruleset.metadata.version = "b" := by rw [← hequal]; rfl
  simp only [List.mem_cons, List.not_mem_nil, or_false] at hsave
  rcases hsave with rfl | rfl
  · simp [old, rulesetOfVersion] at hversion
  · simp at hcomplete

end

end DomainStatus.Fingerprint
