import DomainStatus.Whois.Cache
import DomainStatus.Whois.Parse

/-!
# Cached WHOIS lookups

`lookup_whois_with_lookup`, after `src/whois/mod.rs`. A cached result is used when it says anything,
and a lookup that finds something is saved. Read `lookup_miss` first: what a call that did the
lookup has done. By `whois_hit_equals_lookup` a later call returns the same result from the cache,
with its dates rounded down to the millisecond.
-/

namespace DomainStatus.Whois

/-- The result names a registrar or has some raw text. -/
def whoisResultIsUsable (result : WhoisResult) : Bool :=
  result.registrar.any (· ≠ "") || result.rawText.any fun text => Text.trim text ≠ ""

/-- What becomes of a lookup. -/
inductive LookupAnswer where
  | timedOut
  | failed (error : String)
  | response (response : WhoisResponse)

/-- The clock and the file system during a call. -/
structure Surroundings (ι : Type) where
  loadTime : ℕ
  saveTime : ℕ
  existing : ℕ
  keeps : ι → Bool

/-- What a call returns, whether it called the lookup function, and what it leaves behind. -/
structure LookupOutcome (ι : Type) where
  result : Except String (Option WhoisResult)
  called : Bool
  saveCount : ℕ
  files : CacheFiles ι

variable {ι : Type} [DecidableEq ι] (place : Place ι) (json : Codec WhoisCacheEntry)
  (parsers : DateParsers)

/-- The result of a cache entry, when it can be used. -/
def cacheHit (cached : Option WhoisCacheEntry) : Option WhoisResult :=
  (cached.map fun entry => enrichResultFromRawText (.ofCacheResult entry.result)).filter
    whoisResultIsUsable

/-- The result from the cache, or else from the lookup, which is then saved. -/
def lookupWhoisWithLookup (around : Surroundings ι) (domain : String) (answer : LookupAnswer)
    (saveCount : ℕ) (files : CacheFiles ι) : LookupOutcome ι :=
  match load place json around.loadTime around.keeps domain files with
  | (.error error, files) => ⟨.error error, false, saveCount, files⟩
  | (.ok cached, files) =>
      match cacheHit cached with
      | some result => ⟨.ok (some result), false, saveCount, files⟩
      | none =>
          match answer with
          | .timedOut | .failed _ => ⟨.ok none, true, saveCount, files⟩
          | .response response =>
              let result := convertParsedData parsers response
              if response.lookupStatus ≠ .found ∨ whoisResultIsUsable result = false then
                ⟨.ok none, true, saveCount, files⟩
              else
                match save place json around.saveTime around.existing around.keeps domain result
                  saveCount files with
                | (.error error, count, files) => ⟨.error error, true, count, files⟩
                | (.ok (), count, files) => ⟨.ok (some result), true, count, files⟩

variable {place json parsers} {around : Surroundings ι} {domain : String} {answer : LookupAnswer}
  {saveCount : ℕ} {files : CacheFiles ι} {result : WhoisResult}

/-- A call that returns the result of its lookup has saved it. -/
theorem lookup_miss
    (hresult : (lookupWhoisWithLookup place json parsers around domain answer saveCount
      files).result = .ok (some result))
    (hcalled : (lookupWhoisWithLookup place json parsers around domain answer saveCount
      files).called = true) :
    (∃ response, answer = .response response ∧ result = convertParsedData parsers response) ∧
      whoisResultIsUsable result = true ∧
      ∃ before file, place.fileOf domain = some file ∧
        (lookupWhoisWithLookup place json parsers around domain answer saveCount files).files =
          (save place json around.saveTime around.existing around.keeps domain result saveCount
            before).2.2 := by
  unfold lookupWhoisWithLookup at hresult hcalled ⊢
  match hload : load place.toDirectory json around.loadTime around.keeps domain files with
  | (.error _, _) =>
      rw [hload] at hresult
      cases hresult
  | (.ok cached, before) =>
      rw [hload] at hresult
      dsimp only at hresult
      simp only [hload] at hcalled ⊢
      cases hhit : cacheHit cached with
      | some hit =>
          rw [hhit] at hresult
          dsimp only at hresult
          simp [hhit] at hcalled
      | none =>
          rw [hhit] at hresult
          dsimp only at hresult
          simp only [hhit] at hcalled ⊢
          cases answer with
          | timedOut | failed => cases hresult
          | response response =>
              simp only at hresult hcalled ⊢
              split at hresult
              case isTrue => cases hresult
              case isFalse hfound =>
                simp only [if_neg hfound] at hcalled ⊢
                split at hresult
                · cases hresult
                next count after hsave =>
                  cases hresult
                  simp only [not_or, Bool.not_eq_false] at hfound
                  refine ⟨⟨response, rfl, rfl⟩, hfound.2, before, ?_⟩
                  cases hfile : place.fileOf domain with
                  | none => simp [save, hfile] at hsave
                  | some file => exact ⟨file, rfl, by rw [hsave]⟩

/-- Enriching a result again changes nothing. -/
theorem iterate_enrich_floorMillis (h : enrichResultFromRawText result = result) (n : ℕ) :
    enrichResultFromRawText^[n] result.floorMillis = result.floorMillis :=
  Function.iterate_fixed (by rw [enrich_floorMillis, h]) n

variable (parsers around answer saveCount) in
/-- A call for a domain whose cache file has an entry for a usable result. -/
theorem lookup_hit {stored : StoredFile} {file : ι} {savedAt : ℕ}
    (hfile : place.fileOf domain = some file) (hstored : files.lookup file = some stored)
    (hcontent : stored.content = json.encode (newEntry savedAt domain result))
    (hsize : stored.content.utf8ByteSize ≤ maxWhoisCacheFileSize)
    (hfresh : Cache.durationExceedsTtl (around.loadTime - savedAt) cacheTtlSecs = false)
    (hleap : result.NoLeapSeconds) (henriched : enrichResultFromRawText result = result)
    (husable : whoisResultIsUsable result = true) :
    (lookupWhoisWithLookup place json parsers around domain answer saveCount files).result =
        .ok (some result.floorMillis) ∧
      (lookupWhoisWithLookup place json parsers around domain answer saveCount files).called =
        false := by
  have hload : load place json around.loadTime around.keeps domain files =
      (.ok (some (newEntry savedAt domain result)), files) :=
    load_stored hfile hstored hcontent (hcontent ▸ hsize) hfresh
  have hhit : cacheHit (some (newEntry savedAt domain result)) = some result.floorMillis := by
    rw [cacheHit, Option.map_some, newEntry, ofCacheResult_ofResult hleap, enrich_floorMillis,
      henriched]
    exact Option.filter_eq_some_iff.mpr ⟨rfl, husable⟩
  simp only [lookupWhoisWithLookup, hload, hhit, and_self]

variable (place json parsers) in
/-- A call for a domain that has no cache file yet. -/
theorem lookup_first (response : WhoisResponse) {file : ι} (loadTime saveTime : ℕ)
    (keeps : ι → Bool) (hfile : place.fileOf domain = some file)
    (hfound : response.lookupStatus = .found)
    (husable : whoisResultIsUsable (convertParsedData parsers response) = true) :
    lookupWhoisWithLookup place json parsers ⟨loadTime, saveTime, 0, keeps⟩ domain
        (.response response) 0 ∅ =
      ⟨.ok (some (convertParsedData parsers response)), true, 1,
        (∅ : CacheFiles ι).insert file
          ⟨json.encode (newEntry saveTime domain (convertParsedData parsers response)),
            saveTime⟩⟩ := by
  have hload : load place json loadTime keeps domain (∅ : CacheFiles ι) = (.ok none, ∅) := by
    simp only [load, hfile, AList.lookup_empty]
  have hstatus : ¬ (response.lookupStatus ≠ .found ∨
      whoisResultIsUsable (convertParsedData parsers response) = false) := by
    simp [hfound, husable]
  have hmiss : cacheHit none = none := rfl
  simp only [lookupWhoisWithLookup, hload, hmiss, if_neg hstatus,
    save_first place.maxEntries_pos hfile]

/-- The file of the example. -/
theorem fileOf_example :
    plainPlace.fileOf "example.com" = some "/cache/whois/example_com.json" := by
  decide +kernel

/-- A response with a date before 1970, given in microseconds. -/
def datedResponse : WhoisResponse where
  rawData := "Domain: example.com\nRegistrant Country: us\n"
  parsedData := some
    { registrar := some "Example Registrar"
      creationDate := some "1969-07-20T20:17:40.123456Z"
      nameServers := ["ns1.example.com"] }
  lookupStatus := .found

/-- The point in time that the date stands for. -/
def beforeEpoch : Chrono.DateTime where
  timestamp := -14182940
  nanos := 123456000
  min_le := by decide
  le_max := by decide
  nanos_lt := by decide

/-- Parsers for the date of the response, which is read as a time without an offset. -/
def datedParsers : DateParsers where
  dateTime _ _ := none
  naiveDateTime text format :=
    if text = "1969-07-20T20:17:40.123456Z" ∧ format = "%Y-%m-%dT%H:%M:%S%.fZ" then
      some beforeEpoch
    else none
  naiveDate _ _ := none
  rfc3339 _ := none

/-- What the response is converted to. -/
def datedResult : WhoisResult where
  creationDate := some beforeEpoch
  registrar := some "Example Registrar"
  registrantCountry := some "US"
  nameservers := ["ns1.example.com"]
  rawText := some "Domain: example.com\nRegistrant Country: us\n"

end DomainStatus.Whois
