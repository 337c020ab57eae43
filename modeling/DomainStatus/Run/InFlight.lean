import Mathlib.Data.Finset.Insert
import Mathlib.Data.Finset.Erase
import Mathlib.Data.List.Count
import DomainStatus.Lib.Trace

/-!
# The in-flight registry and its guards

`InFlightGuard` of `src/run/mod.rs`: registering a guard puts its URL into a set shared by all
tasks, and dropping the guard takes the URL out again. The set does not count, while the live
guards of one URL can be several. `registry_exact_always_iff` says exactly which sequences of
registrations and drops keep the set equal to the URLs of the live guards.
-/

namespace DomainStatus.InFlight

open Trace

/-- `Arc<Mutex<HashSet<String>>>`. No critical section of the mutex can panic, so the mutex is
never poisoned and the branches for a poisoned lock are never taken. -/
abbrev Registry := Finset String

/-- What `InFlightGuard::register` does to the set. -/
def register (registry : Registry) (url : String) : Registry :=
  insert url registry

/-- What dropping a guard of `url` does to the set. -/
def unregister (registry : Registry) (url : String) : Registry :=
  registry.erase url

/-- The registry with the guards in the order of their registration. A guard's `url` field is
`none` once its `Drop` has taken the URL out. -/
structure State where
  registry : Registry
  guards : List (Option String)
  deriving DecidableEq

/-- A guard is registered for a URL, or the guard with the given number is dropped. -/
inductive Event where
  | register (url : String)
  | drop (guard : ℕ)

/-- No guard has been registered yet. -/
def init : State :=
  { registry := ∅, guards := [] }

/-- One registration or drop. Only a live guard can be dropped. -/
def step (state : State) : Event → Option State
  | .register url =>
      some { registry := register state.registry url, guards := state.guards ++ [some url] }
  | .drop guard =>
      match state.guards[guard]? with
      | some (some url) =>
          some { registry := unregister state.registry url, guards := state.guards.set guard none }
      | _ => none

/-- The number of live guards of a URL. -/
def State.live (state : State) (url : String) : ℕ :=
  state.guards.count (some url)

/-- The snapshot that `drain_join_set` takes at its deadline. -/
def State.abandoned (state : State) : Finset String :=
  state.registry

/-- The registry holds exactly the URLs of the live guards, so the snapshot covers every URL whose
task still holds its guard. -/
def Exact (state : State) : Prop :=
  (∀ url, url ∈ state.registry ↔ 0 < state.live url) ∧
    ∀ url, 0 < state.live url → url ∈ state.abandoned

/-- The dropped guard is the only live guard of its URL. -/
def SoleDrop (state : State) : Event → Prop
  | .register _ => True
  | .drop guard => ∀ url, state.guards[guard]? = some (some url) → state.live url = 1

/-! ## One step -/

/-- A guard that is registered adds one to the live guards of its URL. -/
theorem live_register (state : State) (added url : String) :
    List.count (some url) (state.guards ++ [some added]) =
      state.live url + if added = url then 1 else 0 := by
  simp [State.live, List.count_append, List.count_singleton]

/-- Dropping a guard takes one away from the live guards of its URL, and from no other. -/
theorem live_drop {state : State} {guard : ℕ} {dropped : String}
    (hguard : state.guards[guard]? = some (some dropped)) (url : String) :
    List.count (some url) (state.guards.set guard none) =
      state.live url - if dropped = url then 1 else 0 := by
  obtain ⟨hlt, hvalue⟩ := List.getElem?_eq_some_iff.mp hguard
  rw [List.count_set hlt, hvalue]
  simp [State.live]

/-- A step that drops no guard shadowed by another keeps the registry exact, and any other step
breaks it. -/
theorem soleDrop_iff_exact {state : State} {event : Event} {next : State}
    (hexact : Exact state) (hstep : step state event = some next) :
    SoleDrop state event ↔ Exact next := by
  cases event with
  | register added =>
      simp only [step, Option.some.injEq] at hstep
      subst hstep
      have hmem : ∀ url, url ∈ register state.registry added ↔
          0 < List.count (some url) (state.guards ++ [some added]) := by
        intro url
        rw [live_register, register, Finset.mem_insert, hexact.1 url]
        by_cases h : added = url
        · simp [h]
        · simp [h, Ne.symm h]
      simp [SoleDrop, Exact, State.live, State.abandoned, hmem]
  | drop guard =>
      simp only [step] at hstep
      split at hstep
      next dropped hguard =>
        simp only [Option.some.injEq] at hstep
        subst hstep
        have hlive : 0 < state.live dropped := by
          obtain ⟨hlt, hvalue⟩ := List.getElem?_eq_some_iff.mp hguard
          exact List.count_pos_iff.mpr (hvalue ▸ List.getElem_mem hlt)
        constructor
        · intro hsole
          have hone := hsole dropped hguard
          have hmem : ∀ url, url ∈ unregister state.registry dropped ↔
              0 < List.count (some url) (state.guards.set guard none) := by
            intro url
            rw [live_drop hguard, unregister, Finset.mem_erase, hexact.1 url]
            by_cases h : dropped = url
            · subst h
              simp [hone]
            · simp [h, Ne.symm h]
          simp [Exact, State.live, State.abandoned, hmem]
        · intro hnext url hurl
          obtain rfl : dropped = url := by simpa [hguard] using hurl
          by_contra hmany
          -- Another guard of the URL is live, and the drop takes the entry away from it.
          have hleft : 0 < List.count (some dropped) (state.guards.set guard none) := by
            rw [live_drop hguard, if_pos rfl]
            omega
          have hin := (hnext.1 dropped).mpr hleft
          simp [unregister] at hin
      · cases hstep

/-- An event that is not enabled drops no live guard. -/
theorem soleDrop_of_idle (state : State) (event : Event) (hidle : step state event = none) :
    SoleDrop state event := by
  cases event with
  | register url => trivial
  | drop guard =>
      intro url hguard
      simp [step, hguard] at hidle

/-! ## Whole runs -/

/-- The map is exact at the start. -/
theorem exact_init : Exact init := by
  simp [Exact, State.live, init]

/-- The registry is exact at every point of a sequence of registrations and drops exactly when no
drop takes a guard whose URL is held by a second live guard. -/
theorem registry_exact_always_iff (events : List Event) :
    Always step Exact init events ↔ Along step SoleDrop init events :=
  always_iff_along (fun _ _ _ hexact hstep => soleDrop_iff_exact hexact hstep)
    soleDrop_of_idle exact_init events

/-- Two live guards of one URL: dropping the first empties the registry under the second. -/
theorem registry_loses_repeated_url :
    ¬ ∀ events : List Event, Always step Exact init events := by
  intro h
  have hexact := h [.register "https://a.test", .register "https://a.test", .drop 0] _
    ⟨∅, [none, some "https://a.test"]⟩ List.prefix_rfl (by decide)
  exact absurd ((hexact.1 "https://a.test").mpr (by decide)) (by decide)

end DomainStatus.InFlight
