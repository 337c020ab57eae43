import Mathlib.Logic.Relation

/-!
# Runs of a partial step function

A system is a partial step function `step : State → Event → Option State`, where `none` means
that the event is not enabled. `runTrace` executes a list of events. `Along` says that a
condition on the state before the step and on the event holds at every step of a run, and
`invariant_along` is the induction rule that the safety results of a system use: what one step
preserves under the condition, a whole run preserves.
-/

namespace Trace

variable {State Event : Type*} (step : State → Event → Option State)

/-- Execute the events in order. The run fails at the first event that is not enabled. -/
@[grind =] def runTrace : State → List Event → Option State
  | state, [] => some state
  | state, event :: rest => (step state event).bind fun next => runTrace next rest

/-- The condition `ok` holds of every event of the list in the state in which it is executed. -/
def Along (ok : State → Event → Prop) : State → List Event → Prop
  | _, [] => True
  | state, event :: rest =>
      ok state event ∧ ∀ next, step state event = some next → Along ok next rest

instance decidableAlong (ok : State → Event → Prop) [∀ state event, Decidable (ok state event)] :
    (state : State) → (events : List Event) → Decidable (Along step ok state events)
  | _, [] => isTrue trivial
  | state, event :: rest =>
      match h : step state event with
      | none => decidable_of_iff (ok state event) (by simp [Along, h])
      | some next =>
          haveI := decidableAlong ok next rest
          decidable_of_iff (ok state event ∧ Along step ok next rest) (by simp [Along, h])

/-- The property `good` holds in every state of the run, the first and the last included. -/
def Always (good : State → Prop) (state : State) (events : List Event) : Prop :=
  ∀ before next, before <+: events → runTrace step state before = some next → good next

variable {step}

/-- A run makes its first step and then the others. -/
theorem runTrace_cons_eq_some {state final : State} {event : Event} {rest : List Event} :
    runTrace step state (event :: rest) = some final ↔
      ∃ next, step state event = some next ∧ runTrace step next rest = some final := by
  simp [runTrace, Option.bind_eq_some_iff]

/-- A condition that always holds holds along every run. -/
theorem along_of_forall {ok : State → Event → Prop} (h : ∀ state event, ok state event)
    (state : State) (events : List Event) : Along step ok state events := by
  induction events generalizing state with
  | nil => trivial
  | cons event rest ih => exact ⟨h state event, fun next _ => ih next⟩

/-- What every step of a run preserves under `ok`, the run preserves. -/
theorem invariant_along {ok : State → Event → Prop} {inv : State → Prop}
    (hstep : ∀ state event next, inv state → ok state event →
      step state event = some next → inv next)
    {state final : State} {events : List Event} (hinv : inv state)
    (hok : Along step ok state events) (hrun : runTrace step state events = some final) :
    inv final := by
  induction events generalizing state with
  | nil =>
      cases hrun
      exact hinv
  | cons event rest ih =>
      obtain ⟨next, hnext, hrest⟩ := runTrace_cons_eq_some.mp hrun
      exact ih (hstep state event next hinv hok.1 hnext) (hok.2 next hnext) hrest

/-- Two conditions that agree in every state with an invariant hold along the same runs. -/
theorem along_congr {left right : State → Event → Prop} {inv : State → Prop}
    (hstep : ∀ state event next, inv state → step state event = some next → inv next)
    (hiff : ∀ state event, inv state → (left state event ↔ right state event))
    {state : State} (hinv : inv state) (events : List Event) :
    Along step left state events ↔ Along step right state events := by
  induction events generalizing state with
  | nil => exact Iff.rfl
  | cons event rest ih =>
      have hrest : ∀ next, step state event = some next →
          (Along step left next rest ↔ Along step right next rest) :=
        fun next hnext => ih (hstep state event next hinv hnext)
      exact and_congr (hiff state event hinv) (forall₂_congr hrest)

/-- What every step preserves, a run preserves. -/
theorem invariant_run {inv : State → Prop}
    (hstep : ∀ state event next, inv state → step state event = some next → inv next)
    {state final : State} {events : List Event} (hinv : inv state)
    (hrun : runTrace step state events = some final) : inv final := by
  have hfree : Along step (fun _ _ => True) state events :=
    along_of_forall (fun _ _ => trivial) state events
  exact invariant_along (fun state event next hinv _ => hstep state event next hinv) hinv hfree hrun

/-- The first state of a run is one of its states. -/
theorem Always.head {good : State → Prop} {state : State} {events : List Event}
    (h : Always step good state events) : good state :=
  h [] state List.nil_prefix rfl

/-- What always holds does so now and after the first step. -/
theorem always_cons_iff {good : State → Prop} {state : State} {event : Event}
    {rest : List Event} :
    Always step good state (event :: rest) ↔
      good state ∧ ∀ next, step state event = some next → Always step good next rest := by
  constructor
  · intro h
    refine ⟨h.head, fun next hnext before final hbefore hrun => ?_⟩
    exact h (event :: before) final (List.cons_prefix_cons.mpr ⟨rfl, hbefore⟩)
      (runTrace_cons_eq_some.mpr ⟨next, hnext, hrun⟩)
  · intro h
    obtain ⟨hstate, hrest⟩ := h
    intro before final hbefore hrun
    cases before with
    | nil =>
        cases hrun
        exact hstate
    | cons first before =>
        obtain ⟨rfl, htail⟩ := List.cons_prefix_cons.mp hbefore
        obtain ⟨next, hnext, hrun⟩ := runTrace_cons_eq_some.mp hrun
        exact hrest next hnext before final htail hrun

/-- What every step preserves under `ok` holds in every state of a run whose steps all meet `ok`. -/
theorem always_of_along {ok : State → Event → Prop} {inv : State → Prop}
    (hstep : ∀ state event next, inv state → ok state event →
      step state event = some next → inv next)
    {state : State} {events : List Event} (hinv : inv state)
    (hok : Along step ok state events) : Always step inv state events := by
  induction events generalizing state with
  | nil =>
      intro before next hbefore hrun
      obtain rfl := List.prefix_nil.mp hbefore
      cases hrun
      exact hinv
  | cons event rest ih =>
      exact always_cons_iff.mpr ⟨hinv, fun next hnext =>
        ih (hstep state event next hinv hok.1 hnext) (hok.2 next hnext)⟩

/-- When `ok` is exactly the condition under which one step keeps `good`, it is exactly the
condition under which every state of a run is `good`. -/
theorem always_iff_along {good : State → Prop} {ok : State → Event → Prop}
    (hstep : ∀ state event next, good state → step state event = some next →
      (ok state event ↔ good next))
    (hidle : ∀ state event, step state event = none → ok state event)
    {state : State} (hgood : good state) (events : List Event) :
    Always step good state events ↔ Along step ok state events := by
  induction events generalizing state with
  | nil =>
      refine ⟨fun _ => trivial, fun _ before final hbefore hrun => ?_⟩
      obtain rfl := List.prefix_nil.mp hbefore
      cases hrun
      exact hgood
  | cons event rest ih =>
      rw [always_cons_iff]
      cases hnext : step state event with
      | none => simp [Along, hnext, hgood, hidle state event hnext]
      | some next =>
          have hiff := hstep state event next hgood hnext
          simp only [Along, hnext, Option.some.injEq, forall_eq']
          constructor
          · intro h
            obtain ⟨-, hrest⟩ := h
            exact ⟨hiff.mpr hrest.head, (ih hrest.head).mp hrest⟩
          · intro h
            obtain ⟨hok, hrest⟩ := h
            exact ⟨hgood, (ih (hiff.mp hok)).mpr hrest⟩

end Trace
