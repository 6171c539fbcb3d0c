import LeveledLog.Proofs.Handoff.Order
import LeveledLog.Proofs.Handoff.Parties

/-!
A hand-off is a rendezvous that each item goes through exactly once, for any number of senders and
receivers and any order of their steps. That a send or a receive ever returns is not claimed.
-/

namespace LeveledLog.Handoff

variable {Party Item : Type} [DecidableEq Party]

def State.takenFrom (s : State Party Item) (p : Party) : List Item :=
  ((s.deposited.take s.taken.length).filter fun d => d.1 = p).map Prod.snd

def sends (p : Party) (es : List (Event Party Item)) : List Item := es.flatMap (Event.offer p)

def receipts (s : State Party Item) (es : List (Event Party Item)) : List (Party × Item) :=
  (machine Party Item).history (fun s e => e.receipt (next s e)) s es

theorem takenFrom_prefix_deposits (s : State Party Item) (p : Party) :
    s.takenFrom p <+: s.deposits p :=
  ((List.take_prefix _ _).filter _).map _

theorem takenFrom_of_not_waits {s : State Party Item} (h : Conserved s) {p : Party}
    (hp : ¬(s.phase p).Waits) : s.takenFrom p = s.deposits p := by
  cases hx : s.slot with
  | none => simp [State.takenFrom, State.deposits, taken_of_empty h hx]
  | some x =>
    obtain ⟨q, before, hb, hq⟩ := h.latest x hx
    have hne : q ≠ p := fun he => hp (he ▸ hq)
    simp [State.takenFrom, State.deposits, taken_of_full h hx hb, hb, List.filter_append, hne]

theorem deposits_length_le {s : State Party Item} (h : Conserved s) (p : Party) :
    (s.deposits p).length ≤ (s.takenFrom p).length + 1 := by
  cases hx : s.slot with
  | none => simp [State.takenFrom, State.deposits, taken_of_empty h hx]
  | some x =>
    obtain ⟨q, before, hb, _⟩ := h.latest x hx
    by_cases hq : q = p <;>
      simp [State.takenFrom, State.deposits, taken_of_full h hx hb, hb, List.filter_append, hq]

theorem returned_le_takenFrom {s : State Party Item} (h : Invariant s) (p : Party) :
    s.returned p ≤ (s.takenFrom p).length := by
  by_cases hw : (s.phase p).Waits
  · -- The latest item may still be in the slot, but then its send has not returned.
    have hbusy := h.counted.busy p hw.sends
    have hlen := deposits_length_le h.conserved p
    rw [State.offered, hw.pending_eq, List.append_nil] at hbusy
    omega
  · have htaken := takenFrom_of_not_waits h.conserved hw
    by_cases hs : (s.phase p).Sends
    · have hbusy := h.counted.busy p hs
      have hpending : (s.phase p).pending.length ≤ 1 := by
        cases s.phase p <;> simp [Phase.pending]
      rw [State.offered, List.length_append] at hbusy
      rw [htaken]
      omega
    · have hfree := h.counted.free p hs
      rw [State.offered, Phase.pending_of_not_sends hs, List.append_nil, ← htaken] at hfree
      omega

theorem run_invariant {es : List (Event Party Item)}
    (h : (machine Party Item).Valid initial es) :
    Invariant ((machine Party Item).after initial es) :=
  Machine.run_keeps (I := Invariant) (fun _ _ => step_keeps_invariant) h initial_invariant

theorem run_offered {es : List (Event Party Item)} (p : Party)
    (h : (machine Party Item).Valid initial es) :
    ((machine Party Item).after initial es).offered p = sends p es := by
  induction es, h using Machine.run_induction with
  | nil => simp [Machine.after, initial, State.offered, State.deposits, Phase.pending, sends]
  | snoc es e hes he ih =>
    rw [Machine.after_append, sends, List.flatMap_append]
    have hstep := move_offered (move_of_enabled he) p
    rw [ih] at hstep
    simpa [Machine.after, machine, sends] using hstep

theorem run_receipts {es : List (Event Party Item)}
    (h : (machine Party Item).Valid initial es) :
    (receipts initial es).map Prod.snd = ((machine Party Item).after initial es).taken := by
  refine Machine.history_induction (I := fun s past => past.map Prod.snd = s.taken) rfl ?_ h
  intro es e _ he ih
  rw [List.map_append, ih]
  exact (move_taken (move_of_enabled he)).symm

structure ExactlyOnce (es : List (Event Party Item)) (s : State Party Item) : Prop where
  /-- The items that were taken and then the one in the slot are those that were put into it, in
  the same order. -/
  order : s.deposited.map Prod.snd = s.taken ++ s.slot.toList
  single : s.deposited.length ≤ s.taken.length + 1
  /-- No item is put on top of another. -/
  empty : ∀ p x, s.phase p = .filling x → s.slot = none
  /-- The items that were taken are those that receivers return with, each once. -/
  received : (receipts initial es).map Prod.snd = s.taken
  /-- Each sender's items are put into the slot in its own order, but for one at most that it has
  not put there yet. -/
  deposits : ∀ p, sends p es = s.deposits p ++ (s.phase p).pending
  taken : ∀ p, s.takenFrom p <+: sends p es
  /-- All sends of a party but the one that goes on have returned. -/
  counted : ∀ p, ((s.phase p).Sends → s.returned p + 1 = (sends p es).length) ∧
    (¬(s.phase p).Sends → s.returned p = (sends p es).length)
  /-- A send has returned only if its own item was taken. -/
  returned : ∀ p, (sends p es).take (s.returned p) <+: s.takenFrom p

theorem rendezvous_exactly_once {es : List (Event Party Item)}
    (h : (machine Party Item).Valid initial es) :
    ExactlyOnce es ((machine Party Item).after initial es) := by
  have hi := run_invariant h
  have ho := fun p => run_offered p h
  set s := (machine Party Item).after initial es with hs
  have htaken : ∀ p, s.takenFrom p <+: sends p es := by
    intro p
    rw [← ho p]
    exact (takenFrom_prefix_deposits s p).trans (List.prefix_append _ _)
  refine ⟨hi.conserved.order, ?_, ?_, run_receipts h, fun p => (ho p).symm, htaken, ?_, ?_⟩
  · have hlen := congrArg List.length hi.conserved.order
    rw [List.length_map, List.length_append] at hlen
    have hslot : s.slot.toList.length ≤ 1 := by cases s.slot <;> simp
    omega
  · intro p x hp
    exact slot_empty_of_turn hi.exclusive hi.conserved (p := p)
      (by simp [hp, Phase.AtTurn]) (by simp [hp, Phase.Waits])
  · intro p
    rw [← ho p]
    exact ⟨hi.counted.busy p, hi.counted.free p⟩
  · intro p
    have hle := returned_le_takenFrom hi p
    obtain ⟨rest, hrest⟩ := htaken p
    rw [← hrest, List.take_append_of_le_length hle]
    exact List.take_prefix _ _

def equalItems : List (Event Nat Nat) :=
  [.receive 2, .step 2, .step 2, .send 0 7, .send 1 7, .step 0, .step 0, .step 0, .step 0,
    .step 2, .step 2, .step 0, .step 0, .step 0, .step 1, .step 1, .step 1, .step 1,
    .receive 3, .step 3, .step 3]

theorem equal_items_exactly_once :
    (machine Nat Nat).Valid initial equalItems ∧
      receipts initial equalItems = [(2, 7), (3, 7)] ∧
      ExactlyOnce equalItems ((machine Nat Nat).after initial equalItems) :=
  ⟨by decide, by decide, rendezvous_exactly_once (by decide)⟩

end LeveledLog.Handoff
