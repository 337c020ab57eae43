import Mathlib.Algebra.Order.Group.Multiset
import Mathlib.Algebra.Order.Sub.Unbundled.Basic
import Mathlib.Tactic.Abel

/-!
# Ledgers of obligations

A ledger records which items were admitted, which are settled, and which some worker still owes.
At some point it is closed: a snapshot of owed items is taken over as `pending`, to be settled from
outside, while the workers may still be running. From then on `owed` is what neither the settled
items nor the snapshot cover.

A ledger is sound if no item is settled twice and every item that is still owed has a worker.
`Step.sound` says that the steps of a ledger keep it sound, and `Sound.settled_eq` that a sound
ledger without workers and without pending items has settled every admitted item exactly once.
-/

variable {α : Type*} [DecidableEq α]

/-- The admitted, settled and pending items, and the items that a worker owes. -/
@[ext]
structure Ledger (α : Type*) where
  attempted : Multiset α
  settled : Multiset α
  pending : Multiset α
  owing : Multiset α
  closed : Bool

namespace Ledger

/-- The admitted items that are neither settled nor pending. -/
def owed (ledger : Ledger α) : Multiset α :=
  ledger.attempted - (ledger.settled + ledger.pending)

/-- No item is settled twice, and each item that is still owed has a worker. An open ledger owes
what its workers owe. -/
structure Sound (ledger : Ledger α) : Prop where
  covered_le : ledger.settled + ledger.pending ≤ ledger.attempted
  owed_le : ledger.owed ≤ ledger.owing
  owed_eq : ledger.closed = false → ledger.owed = ledger.owing

/-- One step of a ledger. -/
inductive Step (before : Ledger α) : Ledger α → Prop
  /-- Nothing that the ledger records happens. -/
  | idle : Step before before
  /-- An item is admitted and given to a worker. -/
  | accept (item : α) :
      Step before { before with
        attempted := item ::ₘ before.attempted
        owing := item ::ₘ before.owing }
  /-- An item is admitted and settled at once. -/
  | skip (item : α) :
      Step before { before with
        attempted := item ::ₘ before.attempted
        settled := item ::ₘ before.settled }
  /-- A worker settles its item, which nobody else settles. -/
  | settle {item : α} {rest : Multiset α} (howing : before.owing = item ::ₘ rest)
      (howed : before.closed = true → item ∈ before.owed) :
      Step before { before with settled := item ::ₘ before.settled, owing := rest }
  /-- A worker goes away with its item, which is not needed any more. -/
  | lose {item : α} {rest : Multiset α} (howing : before.owing = item ::ₘ rest)
      (hclosed : before.closed = true) (howed : before.owed ≤ rest) :
      Step before { before with owing := rest }
  /-- The snapshot is taken. -/
  | close {snapshot : Multiset α} (hopen : before.closed = false) (hpending : before.pending = 0)
      (hsnapshot : snapshot ≤ before.owing) :
      Step before { before with pending := snapshot, closed := true }
  /-- A part of the snapshot is settled. -/
  | collect {part rest : Multiset α} (hpending : before.pending = part + rest) :
      Step before { before with settled := part + before.settled, pending := rest }

/-- Nothing has to happen in a step. -/
theorem Step.of_eq {before after : Ledger α} (h : after = before) : before.Step after :=
  h ▸ .idle

/-- The admitted items are the settled, the pending and the owed ones. -/
theorem Sound.attempted_eq {ledger : Ledger α} (h : ledger.Sound) :
    ledger.attempted = ledger.settled + ledger.pending + ledger.owed :=
  (add_tsub_cancel_of_le h.covered_le).symm

/-- A ledger is sound if its admitted items are the covered ones and items that workers owe. -/
theorem sound_of_eq {ledger : Ledger α} (owed : Multiset α)
    (heq : ledger.attempted = ledger.settled + ledger.pending + owed)
    (hle : owed ≤ ledger.owing) (hopen : ledger.closed = false → owed = ledger.owing) :
    ledger.Sound := by
  have howed : ledger.owed = owed := by
    rw [Ledger.owed, heq, add_tsub_cancel_left]
  refine ⟨?_, howed ▸ hle, fun h => howed ▸ hopen h⟩
  rw [heq]
  exact Multiset.le_add_right _ _

/-- Every step keeps a ledger sound. -/
theorem Step.sound {before after : Ledger α} (hstep : before.Step after) (h : before.Sound) :
    after.Sound := by
  have heq := h.attempted_eq
  cases hstep with
  | idle => exact h
  | accept item =>
      refine sound_of_eq (item ::ₘ before.owed) ?_ ?_ fun hopen => ?_
      · simp only [heq, ← Multiset.singleton_add]
        abel
      · exact Multiset.cons_le_cons item h.owed_le
      · rw [h.owed_eq hopen]
  | skip item =>
      refine sound_of_eq before.owed ?_ h.owed_le h.owed_eq
      simp only [heq, ← Multiset.singleton_add]
      abel
  | @settle item rest howing howed =>
      -- While the ledger is open all owing items are owed, and later the step says so itself.
      have hmem : item ∈ before.owed := by
        cases hclosed : before.closed with
        | true => exact howed hclosed
        | false =>
            rw [h.owed_eq hclosed, howing]
            exact Multiset.mem_cons_self item rest
      have hcons := Multiset.cons_erase hmem
      refine sound_of_eq (before.owed.erase item) ?_ ?_ fun hopen => ?_
      · calc
          before.attempted = before.settled + before.pending + item ::ₘ before.owed.erase item := by
            rw [hcons, ← heq]
          _ = item ::ₘ before.settled + before.pending + before.owed.erase item := by
            simp only [← Multiset.singleton_add]
            abel
      · have hle := Multiset.erase_le_erase item h.owed_le
        rwa [howing, Multiset.erase_cons_head] at hle
      · rw [h.owed_eq hopen, howing, Multiset.erase_cons_head]
  | lose howing hclosed howed =>
      exact sound_of_eq before.owed heq howed fun hopen => by simp [hclosed] at hopen
  | @close snapshot hopen hpending hsnapshot =>
      -- The snapshot moves its items from owed to pending.
      have howed := h.owed_eq hopen
      refine sound_of_eq (before.owing - snapshot) ?_ (Multiset.sub_le_self _ _) fun hnot => by
        cases hnot
      simp only
      rw [heq, hpending, howed, add_zero, add_assoc, add_tsub_cancel_of_le hsnapshot]
  | collect hpending =>
      refine sound_of_eq before.owed ?_ h.owed_le h.owed_eq
      simp only
      rw [heq, hpending]
      abel

/-- Without workers and without pending items, every admitted item is settled exactly once. -/
theorem Sound.settled_eq {ledger : Ledger α} (h : ledger.Sound) (howing : ledger.owing = 0)
    (hpending : ledger.pending = 0) : ledger.attempted = ledger.settled := by
  have howed : ledger.owed = 0 := Multiset.le_zero.mp (howing ▸ h.owed_le)
  rw [h.attempted_eq, howed, hpending, add_zero, add_zero]

end Ledger
