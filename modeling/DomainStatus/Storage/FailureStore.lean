import DomainStatus.ErrorHandling.Types
import DomainStatus.Lib.Retry
import DomainStatus.Lib.Tables
import DomainStatus.Lib.Text
import DomainStatus.Storage.Database

/-!
# The store of failures

Failures with their redirect chains and response headers, after `src/storage/insert/failure.rs` and
`src/storage/insert/retry.rs`. One transaction stores a failure with all that belongs to it, and is
attempted again when the database is locked. Read `failures_stored_once` first.
-/

namespace DomainStatus.Storage

open ErrorHandling

/-! ## Retries -/

/-- `sqlx::Error`: an error of the database with its message, or another one. -/
inductive SqlxError where
  | database (message : String)
  | other (text : String)
  deriving DecidableEq

/-- `is_retriable_error`. -/
def isRetriableSqlError : SqlxError → Bool
  | .database message =>
      Text.contains message.toList "database is locked".toList ||
        Text.contains message.toList "database is busy".toList
  | .other _ => false

/-- The most retries of an insertion. -/
def maxRetries : ℕ := 3

/-- The delay before the first retry. -/
def initialDelayMs : ℕ := 50

/-- The pause after a failed attempt. -/
def retryDelayMs (attempt : ℕ) : ℕ :=
  initialDelayMs * 2 ^ attempt

/-- `with_sqlite_retry` on what the attempts return, with the pauses between them. -/
def withSqliteRetry {α : Type} (results : ℕ → Except SqlxError α) :
    Except SqlxError α × List ℕ :=
  Retry.loop isRetriableSqlError maxRetries retryDelayMs
    (.other "attempted to acquire a connection on a closed pool") results
    (List.range (maxRetries + 1))

/-- An operation is attempted at most four times, and the pauses take at most 350 ms. -/
theorem withSqliteRetry_spec {α : Type} (results : ℕ → Except SqlxError α) :
    ∃ last ≤ maxRetries,
      withSqliteRetry results = (results last, (List.range last).map retryDelayMs) ∧
      ((List.range last).map retryDelayMs).sum ≤ 350 := by
  obtain ⟨last, hmax, hloop, -, -⟩ := Retry.loop_spec isRetriableSqlError retryDelayMs
    (.other "attempted to acquire a connection on a closed pool") results maxRetries
  refine ⟨last, hmax, hloop, ?_⟩
  have hcases : last = 0 ∨ last = 1 ∨ last = 2 ∨ last = 3 := by
    unfold maxRetries at hmax
    omega
  rcases hcases with rfl | rfl | rfl | rfl <;> decide

/-! ## The store -/

/-- A failed scan of a URL as it is to be stored. -/
structure UrlFailureRecord where
  url : String
  finalUrl : Option String
  domain : String
  finalDomain : Option String
  errorType : ErrorType
  errorMessage : String
  httpStatus : Option ℕ
  retryCount : ℕ
  elapsedTimeSeconds : Option F64
  timestamp : ℤ
  runId : Option String
  redirectChain : List String
  responseHeaders : List (String × String)

/-- The tables `url_failures`, `url_failure_redirect_chain` and `url_failure_response_headers`. A
row of the last two belongs to a failure. -/
structure FailureStore where
  urlFailures : Table (List Value)
  redirectChain : Table (List Value)
  responseHeaders : Table (List Value)
  chain_parent : ∀ hop ∈ redirectChain.rows, urlFailures.hasId hop.parent = true
  header_parent : ∀ header ∈ responseHeaders.rows, urlFailures.hasId header.parent = true

/-- No failure is stored. -/
def FailureStore.empty : FailureStore where
  urlFailures := ∅
  redirectChain := ∅
  responseHeaders := ∅
  chain_parent := nofun
  header_parent := nofun

/-- The row of `url_failures`. -/
def failureRow (failure : UrlFailureRecord) : List Value :=
  [.text failure.url, .ofOption .text failure.finalUrl, .text failure.domain,
    .ofOption .text failure.finalDomain, .text failure.errorType.asStr, .text failure.errorMessage,
    .ofOption (fun status => .integer (status : ℕ)) failure.httpStatus,
    .integer (failure.retryCount : ℕ), .ofOption .real failure.elapsedTimeSeconds,
    .integer failure.timestamp, .ofOption .text failure.runId]

/-- The rows for the hops of a chain, numbered from 1. -/
def chainRows (failure : UrlFailureRecord) : List (List Value) :=
  failure.redirectChain.zipIdx.map fun hop => [.integer (hop.2 + 1 : ℕ), .text hop.1]

/-- The rows for the response headers of a failure. -/
def headerRows (failure : UrlFailureRecord) : List (List Value) :=
  failure.responseHeaders.map fun header => [.text header.1, .text header.2]

/-- The column of the unique key beside `url_failure_id`. -/
def firstColumn (row : List Value) : Value :=
  row.getD 0 .null

/-- `ON CONFLICT(url_failure_id, sequence_order) DO NOTHING`. -/
def chainConflict : OnConflict (List Value) Value :=
  .doNothing fun row => some (firstColumn row)

/-- `ON CONFLICT(url_failure_id, header_name) DO UPDATE SET header_value=excluded.header_value`. -/
def headerConflict : OnConflict (List Value) Value :=
  .doUpdate fun row => some (firstColumn row)

/-- The rows of a failure under the next number. -/
def FailureStore.add (store : FailureStore) (failure : UrlFailureRecord) : FailureStore where
  urlFailures := store.urlFailures.push 0 (failureRow failure)
  redirectChain := store.redirectChain.insertAll chainConflict store.urlFailures.nextId
    (chainRows failure)
  responseHeaders := store.responseHeaders.insertAll headerConflict store.urlFailures.nextId
    (headerRows failure)
  chain_parent _ hhop := Table.hasId_of_mem_insertAll store.chain_parent hhop
  header_parent _ hheader := Table.hasId_of_mem_insertAll store.header_parent hheader

/-- The statements of `insert_url_failure_impl`. -/
inductive FailureStatement where
  | begin | insertUrlFailure | insertRedirectChain | insertResponseHeaders | commit
  deriving DecidableEq

/-- The statements that fail, with their errors. -/
abbrev FailureFaults := FailureStatement → Option SqlxError

/-- The statements that run for a failure. A batch without rows has no statement. -/
def failureStatements (failure : UrlFailureRecord) : List FailureStatement :=
  [.begin, .insertUrlFailure] ++
    (if failure.redirectChain.isEmpty then [] else [.insertRedirectChain]) ++
    (if failure.responseHeaders.isEmpty then [] else [.insertResponseHeaders]) ++ [.commit]

/-- One attempt. The first statement that fails ends it, and the transaction is rolled back. -/
def insertUrlFailureImpl (faults : FailureFaults) (failure : UrlFailureRecord)
    (store : FailureStore) : Except SqlxError (ℕ × FailureStore) :=
  match (failureStatements failure).findSome? faults with
  | some error => .error error
  | none => .ok (store.urlFailures.nextId, store.add failure)

/-- What the store has of a failure. -/
structure StoredFailure where
  row : List Value
  redirectChain : List (List Value)
  responseHeaders : List (List Value)

/-- The failure that is stored under an id. -/
def FailureStore.find (store : FailureStore) (id : ℕ) : Option StoredFailure :=
  (store.urlFailures.rows.find? (·.id = id)).map fun row =>
    { row := row.value
      redirectChain := store.redirectChain.valuesOf id
      responseHeaders := store.responseHeaders.valuesOf id }

/-- What should be stored: every hop in its place, and the last value of every header. -/
def UrlFailureRecord.stored (failure : UrlFailureRecord) : StoredFailure where
  row := failureRow failure
  redirectChain := chainRows failure
  responseHeaders := OnConflict.lastOf firstColumn (headerRows failure)

variable {store : FailureStore} {failure : UrlFailureRecord} {id : ℕ}

/-! ## One failure -/

/-- No two hops have one number. -/
theorem mergeAll_chainRows (failure : UrlFailureRecord) :
    chainConflict.mergeAll (chainRows failure) = chainRows failure := by
  apply OnConflict.mergeAll_eq_self
  rw [chainRows, List.pairwise_map]
  refine (List.pairwise_iff_getElem.mpr fun i j hi hj hless => ?_)
  rw [List.getElem_zipIdx, List.getElem_zipIdx]
  have hne : ((0 + i + 1 : ℕ) : ℤ) ≠ (0 + j + 1 : ℕ) := by omega
  simp only [chainConflict, OnConflict.clash, firstColumn, List.getD_cons_zero]
  simpa using hne

/-- A failure is found under its number. -/
theorem isSome_find : (store.find id).isSome = store.urlFailures.hasId id := by
  rw [FailureStore.find, Option.isSome_map, Table.hasId, Bool.eq_iff_iff, List.find?_isSome,
    List.any_eq_true]

/-- The next number is not in use. -/
theorem hasId_nextId : store.urlFailures.hasId store.urlFailures.nextId = false := by
  rw [Table.hasId, List.any_eq_false]
  intro row hrow hid
  exact Nat.ne_of_lt (store.urlFailures.id_lt row hrow) (of_decide_eq_true hid)

/-- A failure is stored as it should be. -/
theorem find_add_nextId (store : FailureStore) (failure : UrlFailureRecord) :
    (store.add failure).find store.urlFailures.nextId = some failure.stored := by
  have hnone : store.urlFailures.rows.find? (·.id = store.urlFailures.nextId) = none := by
    rw [List.find?_eq_none]
    exact List.any_eq_false.mp hasId_nextId
  have hchain : (store.add failure).redirectChain.valuesOf store.urlFailures.nextId =
      chainRows failure := by
    show (store.redirectChain.insertAll _ _ _).valuesOf _ = _
    rw [Table.insertAll_valuesOf, Table.valuesOf_eq_nil_of_parents store.chain_parent]
    exact mergeAll_chainRows failure
  have hheaders : (store.add failure).responseHeaders.valuesOf store.urlFailures.nextId =
      OnConflict.lastOf firstColumn (headerRows failure) := by
    show (store.responseHeaders.insertAll _ _ _).valuesOf _ = _
    rw [Table.insertAll_valuesOf, Table.valuesOf_eq_nil_of_parents store.header_parent]
    rfl
  rw [FailureStore.find, hchain, hheaders]
  simp [FailureStore.add, Table.push, List.find?_append, hnone, UrlFailureRecord.stored]

/-- The other failures are what they were. -/
theorem find_add_ne (h : id ≠ store.urlFailures.nextId) :
    (store.add failure).find id = store.find id := by
  have hchain : (store.add failure).redirectChain.valuesOf id = store.redirectChain.valuesOf id :=
    Table.insertAll_valuesOf_ne h
  have hheaders : (store.add failure).responseHeaders.valuesOf id =
      store.responseHeaders.valuesOf id :=
    Table.insertAll_valuesOf_ne h
  rw [FailureStore.find, hchain, hheaders]
  simp [FailureStore.add, FailureStore.find, Table.push, List.find?_append, h.symm]

/-- What a successful insert leaves. -/
theorem insertUrlFailureImpl_eq_ok {faults : FailureFaults} {after : FailureStore}
    (h : insertUrlFailureImpl faults failure store = .ok (id, after)) :
    id = store.urlFailures.nextId ∧ after = store.add failure := by
  unfold insertUrlFailureImpl at h
  split at h
  · cases h
  · cases h
    exact ⟨rfl, rfl⟩

/-! ## Many failures -/

section Attempts

variable {ι : Type}

/-- The store has what was in it before, the failure of each caller that is done with every hop and
the last value of every header name, and nothing else. -/
structure StoredOnce (failures : ι → UrlFailureRecord) (before after : FailureStore)
    (results : ι → Option ℕ) : Prop where
  old : ∀ id, before.urlFailures.hasId id = true → after.find id = before.find id
  stored : ∀ caller id, results caller = some id → after.find id = some (failures caller).stored
  added : ∀ caller id, results caller = some id → before.urlFailures.hasId id = false
  unique : ∀ caller other id, results caller = some id → results other = some id → caller = other
  only : ∀ id, after.urlFailures.hasId id = true → before.urlFailures.hasId id = true ∨
    ∃ caller, results caller = some id

variable {failures : ι → UrlFailureRecord} {before after : FailureStore} {results : ι → Option ℕ}

/-- Nothing was stored at first. -/
theorem storedOnce_refl : StoredOnce failures before before fun _ => none where
  old _ _ := rfl
  stored := nofun
  added := nofun
  unique := nofun
  only _ h := .inl h

/-- A number that is in use is not the next one. -/
theorem ne_nextId (h : store.urlFailures.hasId id = true) : id ≠ store.urlFailures.nextId := by
  rintro rfl
  rw [hasId_nextId] at h
  cases h

/-- What was stored has its number. -/
theorem StoredOnce.hasId (h : StoredOnce failures before after results) {caller : ι}
    (hcaller : results caller = some id) : after.urlFailures.hasId id = true := by
  rw [← isSome_find, h.stored caller id hcaller]
  rfl

/-- What was there keeps its number. -/
theorem StoredOnce.hasId_old (h : StoredOnce failures before after results)
    (hid : before.urlFailures.hasId id = true) : after.urlFailures.hasId id = true := by
  rw [← isSome_find, h.old id hid, isSome_find, hid]

variable [DecidableEq ι]

/-- One caller more is done. -/
theorem StoredOnce.add (h : StoredOnce failures before after results) (caller : ι)
    (hnone : results caller = none) :
    StoredOnce failures before (after.add (failures caller))
      (Function.update results caller (some after.urlFailures.nextId)) where
  old id hid := by
    rw [find_add_ne (ne_nextId (h.hasId_old hid)), h.old id hid]
  stored other id hother := by
    by_cases hsame : other = caller
    · subst hsame
      rw [Function.update_self, Option.some.injEq] at hother
      rw [← hother, find_add_nextId]
    · rw [Function.update_of_ne hsame] at hother
      rw [find_add_ne (ne_nextId (h.hasId hother)), h.stored other id hother]
  added other id hother := by
    by_cases hsame : other = caller
    · subst hsame
      rw [Function.update_self, Option.some.injEq] at hother
      rw [← Bool.not_eq_true]
      intro hid
      exact ne_nextId (h.hasId_old hid) hother.symm
    · rw [Function.update_of_ne hsame] at hother
      exact h.added other id hother
  unique first second id hfirst hsecond := by
    by_cases hcaller : first = caller
    · by_cases hother : second = caller
      · rw [hcaller, hother]
      · rw [hcaller, Function.update_self, Option.some.injEq] at hfirst
        rw [Function.update_of_ne hother] at hsecond
        exact absurd hfirst.symm (ne_nextId (h.hasId hsecond))
    · rw [Function.update_of_ne hcaller] at hfirst
      by_cases hother : second = caller
      · rw [hother, Function.update_self, Option.some.injEq] at hsecond
        exact absurd hsecond.symm (ne_nextId (h.hasId hfirst))
      · rw [Function.update_of_ne hother] at hsecond
        exact h.unique first second id hfirst hsecond
  only id hid := by
    by_cases hnew : id = after.urlFailures.nextId
    · exact .inr ⟨caller, by rw [Function.update_self, hnew]⟩
    · rw [← isSome_find, find_add_ne hnew, isSome_find] at hid
      rcases h.only id hid with hold | ⟨other, hother⟩
      · exact .inl hold
      · have hne : other ≠ caller := by
          rintro rfl
          rw [hnone] at hother
          cases hother
        exact .inr ⟨other, by rw [Function.update_of_ne hne, hother]⟩

/-- Many callers of `insert_url_failure`, each with its failure, while statements fail. Each event
is one attempt of a caller. -/
def insertUrlFailures (failures : ι → UrlFailureRecord) (before : FailureStore)
    (attempts : List (ι × FailureFaults)) : Retry.System ι FailureStore SqlxError ℕ :=
  Retry.System.run isRetriableSqlError maxRetries
    (fun caller faults => insertUrlFailureImpl faults (failures caller)) before attempts

/-- A run stores each failure once. -/
theorem storedOnce_run (failures : ι → UrlFailureRecord) (before : FailureStore)
    (attempts : List (ι × FailureFaults)) :
    StoredOnce failures before (insertUrlFailures failures before attempts).state
      (insertUrlFailures failures before attempts).results := by
  refine Retry.run_invariant (I := StoredOnce failures before) ?_ storedOnce_refl attempts
  intro store results caller faults id after h hnone hop
  obtain ⟨rfl, rfl⟩ := insertUrlFailureImpl_eq_ok hop
  exact h.add caller hnone

/-- Whatever fails, and in whatever order the callers attempt their insertions: the failure of a
caller that is done is stored once, with every hop and the last value of every header name, a caller
that is not has stored nothing, and no other failure changes. After four attempts a caller is done
or has failed. -/
theorem failures_stored_once (failures : ι → UrlFailureRecord) (before : FailureStore)
    (attempts : List (ι × FailureFaults)) :
    StoredOnce failures before (insertUrlFailures failures before attempts).state
        (insertUrlFailures failures before attempts).results ∧
      ∀ caller, maxRetries < attempts.countP (·.1 = caller) →
        (∃ id, (insertUrlFailures failures before attempts).progress caller = .done id) ∨
          ∃ error, (insertUrlFailures failures before attempts).progress caller =
            .failed error := by
  constructor
  · exact storedOnce_run failures before attempts
  · intro caller hcaller
    exact Retry.run_settled before hcaller

end Attempts

/-- A failure with a redirect and a header that came twice. -/
def twiceFailed : UrlFailureRecord where
  url := "http://a.test/"
  finalUrl := some "https://a.test/"
  domain := "a.test"
  finalDomain := some "a.test"
  errorType := .httpRequestOtherError
  errorMessage := "HTTP request failed"
  httpStatus := some 503
  retryCount := 0
  elapsedTimeSeconds := none
  timestamp := 1
  runId := none
  redirectChain := ["http://a.test/", "https://a.test/"]
  responseHeaders := [("server", "a"), ("server", "b")]

/-- The database is locked when the headers are inserted. -/
def lockedHeaders : FailureFaults
  | .insertResponseHeaders => some (.database "database is locked")
  | _ => none

/-- Another caller stores its failure between the attempts of one that meets a locked database. -/
theorem failures_stored_once_locked :
    let attempts : List (Bool × FailureFaults) :=
      [(true, lockedHeaders), (true, lockedHeaders), (false, fun _ => none), (true, lockedHeaders),
        (true, fun _ => none)]
    StoredOnce (fun _ => twiceFailed) .empty
        (insertUrlFailures (fun _ => twiceFailed) .empty attempts).state
        (insertUrlFailures (fun _ => twiceFailed) .empty attempts).results ∧
      ((∃ id, (insertUrlFailures (fun _ => twiceFailed) .empty attempts).progress true =
          .done id) ∨
        ∃ error, (insertUrlFailures (fun _ => twiceFailed) .empty attempts).progress true =
          .failed error) ∧
      (insertUrlFailures (fun _ => twiceFailed) .empty attempts).results true = some 2 := by
  intro attempts
  have hstored := failures_stored_once (fun _ : Bool => twiceFailed) .empty attempts
  exact ⟨hstored.1, hstored.2 true (by decide), by decide⟩

end DomainStatus.Storage
