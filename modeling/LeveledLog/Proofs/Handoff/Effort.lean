import LeveledLog.Proofs.Handoff.Parties
import Mathlib.Algebra.Order.BigOperators.Group.Finset

/-!
A hand-off at which nobody begins anything comes to rest. Every step of a party takes something off
a number, in which each item that is not in the slot yet pays for all whom it is going to wake. Who
goes on first makes no difference; that everybody has returned by then is not claimed.
-/

namespace LeveledLog

theorem sum_update {κ α : Type} [DecidableEq κ] {S : Finset κ} {k : κ} (hk : k ∈ S)
    (weight : α → Nat) (f : κ → α) (a : α) :
    ∑ j ∈ S, weight (update f k a j) + weight (f k) = ∑ j ∈ S, weight (f j) + weight a := by
  have hrest : ∑ j ∈ S.erase k, weight (update f k a j) = ∑ j ∈ S.erase k, weight (f j) := by
    refine Finset.sum_congr rfl fun j hj => ?_
    rw [update_other _ _ (Finset.ne_of_mem_erase hj)]
  have hnew := Finset.add_sum_erase S (fun j => weight (update f k a j)) hk
  have hold := Finset.add_sum_erase S (fun j => weight (f j)) hk
  simp only [update_same] at hnew
  omega

namespace Handoff

variable {Party Item : Type}

/-- More than the steps that a party at a phase can take until it is at rest, among so many
parties. -/
def Phase.effort (n : Nat) : Phase Item → Nat
  | .idle => 9
  | .received _ => 9
  | .queued _ => 4 * n + 20
  | .entering _ => 4 * n + 19
  | .filling _ => 4 * n + 18
  | .woken => 12
  | .checking => 11
  | .asleep => 10
  | .leaving => 10
  | .approaching => 5
  | .roused => 5
  | .looking => 4
  | .dozing => 3

/-- Whoever takes the item wakes all others, at two each. -/
def slotEffort (n : Nat) : Option Item → Nat
  | some _ => 2 * n + 6
  | none => 0

def State.effort (S : Finset Party) (s : State Party Item) : Nat :=
  ∑ p ∈ S, (s.phase p).effort S.card + slotEffort S.card s.slot

theorem Phase.effort_notify (n : Nat) (ph : Phase Item) : ph.notify.effort n ≤ ph.effort n + 2 := by
  cases ph <;> simp [notify, effort]

theorem Phase.AtRest.effort_eq {ph : Phase Item} (h : ph.AtRest) (n : Nat) : ph.effort n = 9 := by
  cases ph <;> first | rfl | exact h.elim

theorem notified_effort (S : Finset Party) (phase : Party → Phase Item) :
    ∑ p ∈ S, (phase p).notify.effort S.card ≤ ∑ p ∈ S, (phase p).effort S.card + 2 * S.card := by
  calc ∑ p ∈ S, (phase p).notify.effort S.card
      ≤ ∑ p ∈ S, ((phase p).effort S.card + 2) :=
        Finset.sum_le_sum fun p _ => (phase p).effort_notify S.card
    _ = ∑ p ∈ S, (phase p).effort S.card + 2 * S.card := by
        rw [Finset.sum_add_distrib, Finset.sum_const_nat fun _ _ => rfl, Nat.mul_comm]

variable [DecidableEq Party] {S : Finset Party} {s t : State Party Item} {p : Party}

/-- A party moves, and the slot stays as it is. -/
theorem moved_effort (hp : p ∈ S) {old ph : Phase Item} (hold : s.phase p = old)
    (hslot : t.slot = s.slot) (hphase : t.phase = update s.phase p ph) :
    t.effort S + old.effort S.card = s.effort S + ph.effort S.card := by
  have hsum := sum_update hp (Phase.effort S.card) s.phase ph
  rw [hold] at hsum
  simp only [State.effort, hslot, hphase]
  omega

/-- A party moves, and wakes everybody because of what it does to the slot. -/
theorem woken_effort (hp : p ∈ S) {old ph : Phase Item} (hold : s.phase p = old)
    (hphase : t.phase = update s.notified.phase p ph)
    (hless : ph.effort S.card + 2 * S.card + slotEffort S.card t.slot <
      old.notify.effort S.card + slotEffort S.card s.slot) : t.effort S < s.effort S := by
  have hsum := sum_update hp (Phase.effort S.card) s.notified.phase ph
  have hwoken := notified_effort S s.phase
  simp only [notified_phase, hold] at hsum
  simp only [State.effort, hphase, notified_phase]
  omega

theorem send_effort {x : Item} (hp : p ∈ S) (hm : Move s (.send p x) t) :
    t.effort S = s.effort S + (4 * S.card + 11) := by
  cases hm with
  | send rest =>
    have hmoved := moved_effort hp rfl (moved_slot s p (.queued x)) (moved_phase s p _)
    rw [rest.effort_eq, Phase.effort] at hmoved
    omega

theorem receive_effort (hp : p ∈ S) (hm : Move s (.receive p) t) :
    t.effort S + 4 = s.effort S := by
  cases hm with
  | receive rest =>
    have hmoved := moved_effort hp rfl (moved_slot s p .approaching) (moved_phase s p _)
    rw [rest.effort_eq, Phase.effort] at hmoved
    omega

/-- A step makes less of what there is to do. -/
theorem step_effort (hp : p ∈ S) (hm : Move s (.step p) t) : t.effort S < s.effort S := by
  have hmoved : ∀ {old ph}, s.phase p = old → t.slot = s.slot → t.phase = update s.phase p ph →
      ph.effort S.card < old.effort S.card → t.effort S < s.effort S := by
    intro old ph hold hslot hphase hless
    have hsum := moved_effort hp hold hslot hphase
    omega
  cases hm with
  | fill phase =>
    refine woken_effort hp phase rfl ?_
    simp only [moved_slot, notified_slot, Phase.notify, Phase.effort, slotEffort]
    omega
  | take phase full =>
    refine woken_effort hp phase rfl ?_
    simp only [moved_slot, notified_slot, Phase.notify, Phase.effort, slotEffort, full]
    omega
  | takeTurn phase | enter phase | sleep phase | leave phase | yield phase | wake phase
  | approach phase | doze phase | rouse phase =>
    exact hmoved phase rfl rfl (by simp [Phase.effort])

end Handoff

end LeveledLog
