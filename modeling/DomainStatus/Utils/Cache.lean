import DomainStatus.Lib.Files
import DomainStatus.Lib.Trace
import Mathlib.Algebra.Group.Nat.Defs

/-!
# Replacing a cache file

The helpers of `src/utils/cache.rs`. In `write_atomic` the bytes go to a staging file beside the
destination, which is then renamed. All calls for one destination share the staging file. The calls
run concurrently, one step of the file system at a time. Read `exclusive_step` first: as long as no
call creates the staging file while another one is using it, the staging file belongs to one call.
By `write_atomic_whole_iff` this is also needed in every run in which all calls return.
-/

namespace DomainStatus.Cache

open Trace

/-- True when a cache entry of this age, in nanoseconds, has reached its time to live. -/
def durationExceedsTtl (age ttlSecs : ℕ) : Bool :=
  ttlSecs ≤ age / 10 ^ 9

/-- Whether a cache entry has expired. The last argument decides for an entry from the future. -/
def cacheTtlExceeded (now lastUpdated ttlSecs : ℕ) (expireOnClockSkew : Bool) : Bool :=
  if lastUpdated ≤ now then durationExceedsTtl (now - lastUpdated) ttlSecs else expireOnClockSkew

/-- The name of the staging file. -/
def stagingName (fileName : String) : String :=
  "." ++ fileName ++ ".tmp"

/-- Where a call of `write_atomic` is. After a failed rename it looks for the destination, removes
it and renames once more. -/
inductive Phase where
  | creating
  | writing (file written : ℕ)
  | moving
  | checking
  | removing
  | movingAgain
  | ok
  | failed
  deriving DecidableEq

/-- A call with the bytes that it writes. -/
structure Call where
  bytes : List UInt8
  phase : Phase
  deriving DecidableEq

/-- What a call does next to the directory. A write passes on the next `count + 1` bytes at most. -/
def callStep (fileName : String) (files : Files String) (bytes : List UInt8) (count : ℕ) :
    Phase → Option (Phase × Files String)
  | .creating =>
      let (file, after) := files.create (stagingName fileName)
      some (.writing file 0, after)
  | .writing file written =>
      if written < bytes.length then
        let chunk := (bytes.drop written).take (count + 1)
        some (.writing file (written + chunk.length), files.write file written chunk)
      else some (.moving, files)
  | .moving =>
      match files.rename (stagingName fileName) fileName with
      | some after => some (.ok, after)
      | none => some (.checking, files)
  | .checking =>
      if (files.entries fileName).isSome then some (.removing, files) else some (.failed, files)
  | .removing =>
      match files.remove fileName with
      | some after => some (.movingAgain, after)
      | none => some (.failed, files)
  | .movingAgain =>
      match files.rename (stagingName fileName) fileName with
      | some after => some (.ok, after)
      | none => some (.failed, files)
  | .ok | .failed => none

/-- The directory of the destination and the calls so far. -/
structure State where
  files : Files String
  calls : List Call

/-- A new call, or more of the writes of one. -/
inductive Event where
  | call (bytes : List UInt8)
  | goOn (number count : ℕ)

/-- One step: `write_atomic` is called, or one of the calls goes on. -/
def step (fileName : String) (state : State) : Event → Option State
  | .call bytes =>
      some { state with calls := state.calls ++ [{ bytes := bytes, phase := .creating }] }
  | .goOn number count => do
      let call ← state.calls[number]?
      let (phase, files) ← callStep fileName state.files call.bytes count call.phase
      some { files := files, calls := state.calls.set number { call with phase := phase } }

/-- No calls yet, with whatever the directory holds. -/
def State.init (files : Files String) : State :=
  { files := files, calls := [] }

/-- The destination has the bytes of a call or what was there before, and no call has failed. -/
def Whole (fileName : String) (previous : Option (List UInt8)) (state : State) : Prop :=
  (∀ content, state.files.read fileName = some content →
    previous = some content ∨ ∃ call ∈ state.calls, call.bytes = content) ∧
  ∀ call ∈ state.calls, call.phase ≠ .failed

/-- The call is not between the creation of the staging file and its return. -/
def Phase.idle : Phase → Bool
  | .creating | .ok => true
  | _ => false

/-- A call creates the staging file only while no other call is using it. Every other event
qualifies. -/
def Alone (state : State) : Event → Prop
  | .goOn number _ => ∀ call ∈ state.calls[number]?, call.phase = .creating →
      ∀ other ∈ state.calls, other.phase.idle = true
  | .call _ => True

instance (state : State) : (event : Event) → Decidable (Alone state event)
  | .goOn _ _ => by
      unfold Alone
      infer_instance
  | .call _ => isTrue trivial

/-! ## One step -/

variable {fileName : String} {state next : State} {event : Event} {previous : Option (List UInt8)}

/-- The staging file is not the file itself. -/
theorem stagingName_ne (fileName : String) : stagingName fileName ≠ fileName := by
  intro h
  have hlength := congrArg String.length h
  have hsuffix : ".tmp".length = 4 := by decide
  simp only [stagingName, String.length_append] at hlength
  omega

/-- What lets a call go on. -/
theorem goOn_inv {number count : ℕ} (hstep : step fileName state (.goOn number count) = some next) :
    ∃ call phase files, state.calls[number]? = some call ∧
      callStep fileName state.files call.bytes count call.phase = some (phase, files) ∧
      next = { files := files, calls := state.calls.set number { call with phase := phase } } := by
  simp only [step, Option.bind_eq_bind, Option.bind_eq_some_iff] at hstep
  obtain ⟨call, hcall, ⟨phase, files⟩, hcallStep, hnext⟩ := hstep
  exact ⟨call, phase, files, hcall, hcallStep, (Option.some.inj hnext).symm⟩

/-- A write of the next bytes behind the ones that are there. -/
theorem writeAt_take {bytes : List UInt8} {written : ℕ} (h : written ≤ bytes.length) (count : ℕ) :
    Files.writeAt written ((bytes.drop written).take count) (bytes.take written) =
      bytes.take (written + ((bytes.drop written).take count).length) := by
  have hlength : (bytes.take written).length = written := List.length_take_of_le h
  have hend : (bytes.take written).drop (written + ((bytes.drop written).take count).length) = [] :=
    List.drop_eq_nil_of_le (by omega)
  rw [Files.writeAt, hend, hlength, Nat.sub_self, List.replicate_zero, List.append_nil,
    List.append_nil, List.take_take, Nat.min_self, List.take_add, List.append_cancel_left_eq]
  simp [List.take_eq_take_iff]

/-! ## One call at a time -/

/-- The staging file is there and has what the call has written so far. -/
def HoldsStaging (fileName : String) (files : Files String) (call : Call) : Prop :=
  ∃ id, files.entries (stagingName fileName) = some id ∧
    match call.phase with
    | .writing file written => file = id ∧ written ≤ call.bytes.length ∧
        files.contents[id]? = some (call.bytes.take written)
    | .moving => files.contents[id]? = some call.bytes
    | _ => False

/-- No other call is using the staging file. -/
def OthersIdle (calls : List Call) (number : ℕ) : Prop :=
  ∀ (other : ℕ) (found : Call), calls[other]? = some found → other ≠ number →
    found.phase.idle = true

/-- The destination is whole, and a call that is using the staging file holds it alone. -/
structure Exclusive (fileName : String) (previous : Option (List UInt8)) (state : State) :
    Prop where
  whole : Whole fileName previous state
  holds : ∀ (number : ℕ) (call : Call), state.calls[number]? = some call →
    call.phase.idle = false →
      HoldsStaging fileName state.files call ∧ OthersIdle state.calls number

/-- A step of a call keeps the destination whole when it leaves a complete content there and the
call does not fail. -/
theorem Whole.set (h : Whole fileName previous state) {number : ℕ} {call : Call}
    (hcall : state.calls[number]? = some call) {phase : Phase} (hphase : phase ≠ .failed)
    {files : Files String}
    (hread : files.read fileName = state.files.read fileName ∨
      files.read fileName = some call.bytes) :
    Whole fileName previous
      { files := files, calls := state.calls.set number { call with phase := phase } } := by
  obtain ⟨hnumber, rfl⟩ := List.getElem?_eq_some_iff.mp hcall
  constructor
  · intro content hcontent
    rcases hread with hread | hread
    · rw [hread] at hcontent
      rcases h.1 content hcontent with hprevious | ⟨found, hfound, hbytes⟩
      · exact .inl hprevious
      · -- The bytes of the calls stay the same.
        obtain ⟨other, hother, rfl⟩ := List.mem_iff_getElem.mp hfound
        by_cases heq : number = other
        · subst heq
          exact .inr ⟨_, List.mem_set hnumber _, hbytes⟩
        · refine .inr ⟨state.calls[other], List.mem_iff_getElem.mpr ⟨other, ?_, ?_⟩, hbytes⟩
          · simpa using hother
          · rw [List.getElem_set_ne heq]
    · rw [hread] at hcontent
      exact .inr ⟨_, List.mem_set hnumber _, Option.some.inj hcontent⟩
  · intro found hfound
    rcases List.mem_or_eq_of_mem_set hfound with hother | rfl
    · exact h.2 found hother
    · exact hphase

/-- A step of the call that holds the staging file, or that is alone in creating it. -/
theorem Exclusive.set (h : Exclusive fileName previous state) {number : ℕ} {call : Call}
    (hcall : state.calls[number]? = some call)
    (hothers : OthersIdle state.calls number)
    {phase : Phase} {files : Files String}
    (hread : files.read fileName = state.files.read fileName ∨
      files.read fileName = some call.bytes)
    (hphase : phase = .ok ∨ HoldsStaging fileName files { call with phase := phase }) :
    Exclusive fileName previous
      { files := files, calls := state.calls.set number { call with phase := phase } } := by
  have hnot : phase ≠ .failed := by
    rintro rfl
    obtain hok | ⟨_, -, hfalse⟩ := hphase
    · cases hok
    · exact hfalse
  refine ⟨h.whole.set hcall hnot hread, fun other found hfound hbusy => ?_⟩
  obtain ⟨hnumber, -⟩ := List.getElem?_eq_some_iff.mp hcall
  -- The other calls are idle, so the busy one is the one that went on.
  by_cases heq : number = other
  · subst heq
    rw [List.getElem?_set_self hnumber] at hfound
    cases hfound
    refine ⟨hphase.resolve_left fun hok => by simp [hok, Phase.idle] at hbusy, ?_⟩
    intro other found hfound hne
    rw [List.getElem?_set_ne (Ne.symm hne)] at hfound
    exact hothers other found hfound hne
  · rw [List.getElem?_set_ne heq] at hfound
    rw [hothers other found hfound (Ne.symm heq)] at hbusy
    cases hbusy

/-- As long as the staging file is created by one call at a time, it belongs to one call. -/
theorem exclusive_step (h : Exclusive fileName previous state) (halone : Alone state event)
    (hstep : step fileName state event = some next) : Exclusive fileName previous next := by
  have hnames := stagingName_ne fileName
  cases event with
  | call bytes =>
      cases hstep
      refine ⟨⟨fun content hcontent => ?_, fun found hfound => ?_⟩,
        fun number found hfound hbusy => ?_⟩
      · refine (h.whole.1 content hcontent).imp_right fun ⟨found, hfound, hbytes⟩ => ?_
        exact ⟨found, List.mem_append_left _ hfound, hbytes⟩
      · rcases List.mem_append.mp hfound with hbefore | hnew
        · exact h.whole.2 found hbefore
        · rw [List.mem_singleton.mp hnew]
          simp
      · -- The new call has not begun, so it is idle.
        have hnew : ∀ (other : ℕ) (found : Call),
            (state.calls ++ [{ bytes, phase := .creating }])[other]? = some found →
              found.phase.idle = true ∨ state.calls[other]? = some found := by
          intro other found hfound
          rw [List.getElem?_append] at hfound
          split at hfound
          · exact .inr hfound
          · left
            rw [List.mem_singleton.mp (List.mem_of_getElem? hfound)]
            rfl
        rcases hnew number found hfound with hidle | hbefore
        · simp [hidle] at hbusy
        · obtain ⟨hholds, hothers⟩ := h.holds number found hbefore hbusy
          exact ⟨hholds, fun other other' hother hne =>
            (hnew other other' hother).elim id fun hother => hothers other other' hother hne⟩
  | goOn number count =>
      obtain ⟨call, phase, files, hcall, hcallStep, rfl⟩ := goOn_inv hstep
      cases hphase : call.phase with
      | creating =>
          have hall := halone call hcall hphase
          rw [hphase] at hcallStep
          cases hcallStep
          obtain ⟨hentry, hcontent⟩ := Files.create_spec state.files (stagingName fileName)
          exact h.set hcall (fun other found hfound _ => hall found (List.mem_of_getElem? hfound))
            (.inl (Files.read_create_of_ne hnames.symm))
            (.inr ⟨_, hentry, rfl, Nat.zero_le _, hcontent⟩)
      | writing file written =>
          obtain ⟨⟨id, hid, hholds⟩, hothers⟩ := h.holds number call hcall (by rw [hphase]; rfl)
          rw [hphase] at hholds hcallStep
          obtain ⟨rfl, hwritten, hcontent⟩ := hholds
          simp only [callStep] at hcallStep
          split at hcallStep <;> cases hcallStep
          · have hdest : state.files.entries fileName ≠ some file := fun hdest =>
              hnames (state.files.name_unique hid hdest)
            refine h.set hcall hothers (.inl (Files.read_modify_of_ne hdest))
              (.inr ⟨file, hid, rfl, ?_, ?_⟩)
            · simp only [List.length_take, List.length_drop]
              omega
            · simp [Files.write, Files.modify, hcontent, writeAt_take hwritten]
          next hdone =>
            refine h.set hcall hothers (.inl rfl) (.inr ⟨file, hid, ?_⟩)
            simp only
            rw [hcontent, List.take_of_length_le (Nat.le_of_not_lt hdone)]
      | moving =>
          obtain ⟨⟨id, hid, hcontent⟩, hothers⟩ := h.holds number call hcall (by rw [hphase]; rfl)
          rw [hphase] at hcontent hcallStep
          obtain ⟨after, hrename, hcontents, hentries⟩ :=
            @Files.rename_eq_some _ _ _ _ fileName _ hid
          simp only [callStep, hrename] at hcallStep
          cases hcallStep
          refine h.set hcall hothers (.inr ?_) (.inl rfl)
          rw [Files.read, hentries, hcontents, Function.update_self]
          exact hcontent
      | checking | removing | movingAgain =>
          obtain ⟨⟨_, -, hfalse⟩, -⟩ := h.holds number call hcall (by rw [hphase]; rfl)
          rw [hphase] at hfalse
          exact hfalse.elim
      | ok | failed =>
          rw [hphase] at hcallStep
          cases hcallStep

/-! ## Staging files and the calls that need one -/

/-- A call that has created the staging file and not moved it. -/
def Call.busy (call : Call) : Bool :=
  !call.phase.idle

/-- The staging file is there, and a call has created it. -/
def staged (fileName : String) (state : State) : Bool :=
  (state.files.entries (stagingName fileName)).isSome &&
    state.calls.any fun call => call.phase != .creating

/-- There are this many more busy calls than staging files. -/
def Debt (fileName : String) (extra : ℕ) (state : State) : Prop :=
  (staged fileName state).toNat + extra ≤ state.calls.countP Call.busy

/-- What a busy call can do to the staging file: nothing, while it stays busy, or move it away. -/
theorem callStep_busy {files after : Files String} {bytes : List UInt8} {count : ℕ}
    {phase phase' : Phase} (hbusy : phase.idle = false)
    (h : callStep fileName files bytes count phase = some (phase', after)) :
    (phase'.idle = false ∧
        after.entries (stagingName fileName) = files.entries (stagingName fileName)) ∨
      (phase' = .ok ∧ (files.entries (stagingName fileName)).isSome = true ∧
        after.entries (stagingName fileName) = none) := by
  have hnames := stagingName_ne fileName
  have hmove : ∀ moved, files.rename (stagingName fileName) fileName = some moved →
      (files.entries (stagingName fileName)).isSome = true ∧
        moved.entries (stagingName fileName) = none := by
    intro moved hmoved
    cases hid : files.entries (stagingName fileName) with
    | none =>
        rw [Files.rename_eq_none.mpr hid] at hmoved
        cases hmoved
    | some id =>
        obtain ⟨other, hother, -, hentries⟩ := @Files.rename_eq_some _ _ _ _ fileName _ hid
        rw [hmoved] at hother
        cases hother
        rw [hentries, Function.update_of_ne hnames, Function.update_self]
        exact ⟨rfl, rfl⟩
  cases phase with
  | creating | ok => cases hbusy
  | failed => cases h
  | writing file written =>
      simp only [callStep] at h
      split at h <;> cases h <;> exact .inl ⟨rfl, rfl⟩
  | moving | movingAgain =>
      simp only [callStep] at h
      split at h <;> cases h
      · exact .inr ⟨rfl, hmove _ ‹_›⟩
      · exact .inl ⟨rfl, rfl⟩
  | checking =>
      simp only [callStep] at h
      split at h <;> cases h <;> exact .inl ⟨rfl, rfl⟩
  | removing =>
      simp only [callStep] at h
      split at h <;> cases h
      next hremove =>
        obtain ⟨_, -, rfl⟩ := Option.map_eq_some_iff.mp hremove
        exact .inl ⟨rfl, Function.update_of_ne hnames _ _⟩
      · exact .inl ⟨rfl, rfl⟩

/-- The number of busy calls after one of them went on. -/
theorem countP_busy_set {calls : List Call} {number : ℕ} {call : Call}
    (hcall : calls[number]? = some call) (phase : Phase) :
    (calls.set number { call with phase := phase }).countP Call.busy + (!call.phase.idle).toNat =
      calls.countP Call.busy + (!phase.idle).toNat := by
  obtain ⟨hnumber, hget⟩ := List.getElem?_eq_some_iff.mp hcall
  have hpos : call.phase.idle = false → 0 < calls.countP Call.busy := fun h =>
    List.countP_pos_iff.mpr ⟨call, List.mem_of_getElem? hcall, by simp [Call.busy, h]⟩
  rw [List.countP_set hnumber, hget]
  simp only [Call.busy] at hpos ⊢
  by_cases hidle : call.phase.idle = true
  · by_cases hphase : phase.idle = true <;> simp [hidle, hphase]
  · have hpos := hpos (by simpa using hidle)
    by_cases hphase : phase.idle = true <;> simp [hidle, hphase] <;> omega

/-- A call that creates the staging file becomes busy with it. -/
theorem debt_create {extra number count : ℕ} {call : Call} {phase : Phase} {files : Files String}
    (hcall : state.calls[number]? = some call) (hphase : call.phase = .creating)
    (hcallStep : callStep fileName state.files call.bytes count call.phase = some (phase, files))
    (h : extra ≤ state.calls.countP Call.busy) :
    Debt fileName extra
      { files := files, calls := state.calls.set number { call with phase := phase } } := by
  have hcount := countP_busy_set hcall phase
  rw [hphase] at hcallStep
  simp only [callStep, Option.some.injEq, Prod.mk.injEq] at hcallStep
  obtain ⟨rfl, rfl⟩ := hcallStep
  refine Nat.le_trans (Nat.add_le_add_right (Bool.toNat_le _) _) ?_
  simp only [hphase, Phase.idle, Bool.not_true, Bool.toNat_false, Nat.add_zero,
    Bool.not_false, Bool.toNat_true] at hcount
  dsimp only
  omega

/-- A staging file that is missing for a busy call stays missing. -/
theorem debt_step {extra : ℕ} (h : Debt fileName extra state)
    (hstep : step fileName state event = some next) : Debt fileName extra next := by
  cases event with
  | call bytes =>
      cases hstep
      simpa [Debt, staged, Call.busy, Phase.idle] using h
  | goOn number count =>
      obtain ⟨call, phase, files, hcall, hcallStep, rfl⟩ := goOn_inv hstep
      have hcount := countP_busy_set hcall phase
      unfold Debt at h ⊢
      cases hidle : call.phase.idle with
      | true =>
          -- Of the idle calls only a new one goes on, and it becomes busy.
          have hphase : call.phase = .creating := by
            cases hphase : call.phase <;> simp_all [Phase.idle, callStep]
          exact debt_create hcall hphase hcallStep (Nat.le_trans (Nat.le_add_left _ _) h)
      | false =>
          have hbegun : state.calls.any (fun call => call.phase != .creating) = true :=
            List.any_eq_true.mpr ⟨call, List.mem_of_getElem? hcall, by
              cases hphase : call.phase <;> simp_all [Phase.idle]⟩
          simp only [staged, hbegun, Bool.and_true] at h
          rw [hidle] at hcount
          rcases callStep_busy hidle hcallStep with ⟨hbusy, hentry⟩ | ⟨rfl, hsome, hnone⟩
          · rw [hbusy] at hcount
            have hle := Nat.le_trans h (Nat.le_of_eq (Nat.add_right_cancel hcount).symm)
            refine Nat.le_trans (Nat.add_le_add_right ?_ _) hle
            simp only [staged, hentry]
            cases (state.files.entries (stagingName fileName)).isSome <;> simp [Bool.toNat_le]
          · simp only [hsome, Bool.toNat_true] at h
            simp only [staged, hnone, Option.isSome_none, Bool.false_and, Bool.toNat_false]
            simp only [Phase.idle, Bool.not_true, Bool.not_false, Bool.toNat_true,
              Bool.toNat_false] at hcount
            omega

/-- A call that creates the staging file while another one is using it leaves a busy call without
one. -/
theorem debt_of_not_alone (hbad : ¬ Alone state event)
    (hstep : step fileName state event = some next) : Debt fileName 1 next := by
  cases event with
  | call bytes => exact absurd trivial hbad
  | goOn number count =>
      obtain ⟨call, phase, files, hcall, hcallStep, rfl⟩ := goOn_inv hstep
      simp only [Alone, hcall, Option.mem_def, Option.some.injEq, forall_eq', not_forall,
        Bool.not_eq_true] at hbad
      obtain ⟨hphase, other, hother, hbusy⟩ := hbad
      have hpos : 0 < state.calls.countP Call.busy :=
        List.countP_pos_iff.mpr ⟨other, hother, by simp [Call.busy, hbusy]⟩
      exact debt_create hcall hphase hcallStep hpos

/-- No call is left without a staging file when all calls have returned without an error. -/
theorem not_debt_of_returned {extra : ℕ} (hall : ∀ call ∈ state.calls, call.phase = .ok) :
    ¬ Debt fileName (extra + 1) state := by
  intro h
  have hzero : state.calls.countP Call.busy = 0 := by
    rw [List.countP_eq_zero]
    intro call hcall
    simp [Call.busy, hall call hcall, Phase.idle]
  unfold Debt at h
  omega

/-- In a run in which all calls return and the destination stays whole, the staging file is always
created by one call at a time. -/
theorem alone_of_whole {final : State} {events : List Event} (h : Exclusive fileName previous state)
    (hrun : runTrace (step fileName) state events = some final)
    (hreturned : ∀ call ∈ final.calls, call.phase = .ok ∨ call.phase = .failed)
    (hwhole : Whole fileName previous final) : Along (step fileName) Alone state events := by
  induction events generalizing state with
  | nil => trivial
  | cons event rest ih =>
      obtain ⟨next, hnext, hrest⟩ := runTrace_cons_eq_some.mp hrun
      by_cases halone : Alone state event
      · refine ⟨halone, fun other hother => ?_⟩
        rw [hnext] at hother
        cases hother
        exact ih (exclusive_step h halone hnext) hrest
      · have hdebt : Debt fileName 1 final :=
          invariant_run (fun _ _ _ => debt_step) (debt_of_not_alone halone hnext) hrest
        refine absurd hdebt (not_debt_of_returned fun call hcall => ?_)
        exact (hreturned call hcall).resolve_right (hwhole.2 call hcall)

/-- At the start no writer is in the way of another. -/
theorem exclusive_init (files : Files String) :
    Exclusive fileName (files.read fileName) (.init files) :=
  ⟨⟨fun _ hcontent => .inl hcontent, fun _ h => by cases h⟩, fun _ _ h => by cases h⟩

/-- In a run in which the staging file is created by one call at a time the destination always has
the bytes of one of the calls or what it had before, and no call fails. In a run at whose end all
calls have returned, this needs the staging file to be created by one call at a time. -/
theorem write_atomic_whole_iff (fileName : String) (files : Files String) (events : List Event) :
    (Along (step fileName) Alone (.init files) events →
      Always (step fileName) (Whole fileName (files.read fileName)) (.init files) events) ∧
    ∀ final, runTrace (step fileName) (.init files) events = some final →
      (∀ call ∈ final.calls, call.phase = .ok ∨ call.phase = .failed) →
        (Always (step fileName) (Whole fileName (files.read fileName)) (.init files) events ↔
          Along (step fileName) Alone (.init files) events) := by
  have henough : Along (step fileName) Alone (.init files) events →
      Always (step fileName) (Whole fileName (files.read fileName)) (.init files) events := by
    intro halone before next hbefore hrun
    have halways := always_of_along (fun _ _ _ => exclusive_step) (exclusive_init files) halone
    exact (halways before next hbefore hrun).whole
  refine ⟨henough, fun final hrun hreturned => ⟨fun halways => ?_, henough⟩⟩
  exact alone_of_whole (exclusive_init files) hrun hreturned
    (halways events final (List.prefix_refl events) hrun)

/-- A directory with nothing in it. -/
def emptyDirectory : Files String where
  entries := fun _ => none
  contents := []
  lt_length h := by cases h
  name_unique h := by cases h

/-- Two calls one after the other. The second one writes its bytes in two pieces. -/
theorem write_atomic_whole_one_by_one :
    Always (step "a.json") (Whole "a.json" none) (.init emptyDirectory)
      [.call [1, 2], .goOn 0 0, .goOn 0 5, .goOn 0 0, .goOn 0 0,
        .call [3, 4], .goOn 1 0, .goOn 1 0, .goOn 1 0, .goOn 1 0, .goOn 1 0] :=
  (write_atomic_whole_iff "a.json" emptyDirectory _).1 (by decide +kernel)

/-- Both calls create the staging file before the first one renames it. The second call then writes
into the destination. -/
theorem write_atomic_tears :
    ¬ ∀ (fileName : String) (files : Files String) (events : List Event),
      Always (step fileName) (Whole fileName (files.read fileName)) (.init files) events := by
  intro h
  let events : List Event := [.call [1, 1], .call [2], .goOn 0 0, .goOn 1 0, .goOn 0 5, .goOn 0 0,
    .goOn 0 0, .goOn 1 0]
  obtain ⟨state, hrun, hread, hbytes⟩ : ∃ state,
      runTrace (step "a.json") (.init emptyDirectory) events = some state ∧
        state.files.read "a.json" = some [2, 1] ∧
          state.calls.map Call.bytes = [[1, 1], [2]] := by
    refine ⟨_, rfl, ?_, ?_⟩ <;> decide +kernel
  rcases (h "a.json" emptyDirectory events events state (List.prefix_refl _) hrun).1 _ hread with
    hprevious | ⟨call, hcall, hcontent⟩
  · cases hprevious
  · have hmem := List.mem_map_of_mem (f := Call.bytes) hcall
    rw [hbytes, hcontent] at hmem
    simp at hmem

end DomainStatus.Cache
