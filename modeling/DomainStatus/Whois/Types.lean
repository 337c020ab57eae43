import DomainStatus.Lib.Chrono

/-!
# WHOIS data

The result of a WHOIS lookup and its form in the cache, after `src/whois/types.rs`. Read
`ofCacheResult_ofResult` first: what comes back is the result with its dates rounded down to the
millisecond.
-/

namespace DomainStatus.Whois

open Chrono

/-- What is known of a domain. -/
structure WhoisResult where
  creationDate : Option DateTime := none
  expirationDate : Option DateTime := none
  updatedDate : Option DateTime := none
  registrar : Option String := none
  registrantCountry : Option String := none
  registrantOrg : Option String := none
  status : List String := []
  nameservers : List String := []
  rawText : Option String := none
  deriving DecidableEq

/-- A result as the cache keeps it, with dates in milliseconds. -/
structure WhoisCacheResult where
  creationDate : Option ℤ
  expirationDate : Option ℤ
  updatedDate : Option ℤ
  registrar : Option String
  registrantCountry : Option String
  registrantOrg : Option String
  status : Option (List String)
  nameservers : Option (List String)
  rawText : Option String
  deriving DecidableEq

/-- An entry of the cache. The time is in nanoseconds since the Unix epoch. -/
structure WhoisCacheEntry where
  result : WhoisCacheResult
  cachedAt : ℕ
  domain : String
  deriving DecidableEq

/-- An empty list is left out. -/
def vecToOpt (values : List String) : Option (List String) :=
  if values.isEmpty then none else some values

/-- `From<&WhoisResult> for WhoisCacheResult`. -/
def WhoisCacheResult.ofResult (result : WhoisResult) : WhoisCacheResult where
  creationDate := result.creationDate.map DateTime.timestampMillis
  expirationDate := result.expirationDate.map DateTime.timestampMillis
  updatedDate := result.updatedDate.map DateTime.timestampMillis
  registrar := result.registrar
  registrantCountry := result.registrantCountry
  registrantOrg := result.registrantOrg
  status := vecToOpt result.status
  nameservers := vecToOpt result.nameservers
  rawText := result.rawText

/-- The point in time of a number of milliseconds. -/
def msToDt (ms : ℤ) : Option DateTime :=
  DateTime.fromTimestamp (ms / 1000) ((ms % 1000).toNat * 1000000)

/-- `From<WhoisCacheResult> for WhoisResult`. -/
def WhoisResult.ofCacheResult (cache : WhoisCacheResult) : WhoisResult where
  creationDate := cache.creationDate.bind msToDt
  expirationDate := cache.expirationDate.bind msToDt
  updatedDate := cache.updatedDate.bind msToDt
  registrar := cache.registrar
  registrantCountry := cache.registrantCountry
  registrantOrg := cache.registrantOrg
  status := cache.status.getD []
  nameservers := cache.nameservers.getD []
  rawText := cache.rawText

/-- The result with its dates rounded down to the millisecond. -/
def WhoisResult.floorMillis (result : WhoisResult) : WhoisResult :=
  { result with
    creationDate := result.creationDate.map DateTime.floorMillis
    expirationDate := result.expirationDate.map DateTime.floorMillis
    updatedDate := result.updatedDate.map DateTime.floorMillis }

/-- None of the dates is in a leap second. -/
def WhoisResult.NoLeapSeconds (result : WhoisResult) : Prop :=
  (∀ date ∈ result.creationDate, date.nanos < 10 ^ 9) ∧
    (∀ date ∈ result.expirationDate, date.nanos < 10 ^ 9) ∧
    ∀ date ∈ result.updatedDate, date.nanos < 10 ^ 9

/-- A list is read back, the empty one as well. -/
theorem getD_vecToOpt (values : List String) : (vecToOpt values).getD [] = values := by
  cases values <;> rfl

/-- A date goes to milliseconds and comes back rounded down. -/
theorem msToDt_timestampMillis {dt : DateTime} (h : dt.nanos < 10 ^ 9) :
    msToDt dt.timestampMillis = some dt.floorMillis := by
  obtain ⟨hseconds, hmillis⟩ := DateTime.timestampMillis_split h
  have hnanos : dt.nanos / 10 ^ 6 * 1000000 ≤ dt.nanos := Nat.div_mul_le_self _ _
  rw [msToDt, hseconds, hmillis, Int.toNat_natCast, DateTime.fromTimestamp,
    dif_pos ⟨⟨dt.min_le, dt.le_max⟩, by omega, fun hleap => by omega⟩]
  rfl

/-- A date is read back to the millisecond. -/
theorem bind_msToDt {date : Option DateTime} (h : ∀ dt ∈ date, dt.nanos < 10 ^ 9) :
    (date.map DateTime.timestampMillis).bind msToDt = date.map DateTime.floorMillis := by
  cases date with
  | none => rfl
  | some dt => exact msToDt_timestampMillis (h dt rfl)

/-- What the cache gives back. -/
theorem ofCacheResult_ofResult {result : WhoisResult} (h : result.NoLeapSeconds) :
    WhoisResult.ofCacheResult (.ofResult result) = result.floorMillis := by
  obtain ⟨hcreation, hexpiration, hupdated⟩ := h
  simp only [WhoisResult.ofCacheResult, WhoisCacheResult.ofResult, WhoisResult.floorMillis,
    bind_msToDt hcreation, bind_msToDt hexpiration, bind_msToDt hupdated, getD_vecToOpt]

end DomainStatus.Whois
