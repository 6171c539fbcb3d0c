import LeveledLog.Proofs.Handoff.Locks

/-!
What one event does to the party that it belongs to, and to the others. A sender goes on with its
send until it is idle, a receiver with its receive until it has an item, and the others are at most
woken.
-/

namespace LeveledLog.Handoff

variable {Party Item : Type}

def Event.party : Event Party Item → Party
  | .send p _ => p
  | .receive p => p
  | .step p => p

def Phase.inHand : Phase Item → List Item
  | received x => [x]
  | _ => []

@[simp]
theorem Phase.inHand_notify (ph : Phase Item) : ph.notify.inHand = ph.inHand := by
  cases ph <;> rfl

def Event.receipt (t : State Party Item) : Event Party Item → List (Party × Item)
  | .step p => (t.phase p).inHand.map (p, ·)
  | _ => []

variable [DecidableEq Party] {s t : State Party Item} {e : Event Party Item} {p q : Party}

theorem move_other (hm : Move s e t) (hq : q ≠ e.party) :
    t.phase q = s.phase q ∨ t.phase q = (s.phase q).notify := by
  cases hm with
  | fill | take =>
    right
    exact update_other _ _ hq
  | _ =>
    left
    exact update_other _ _ hq

theorem move_taken {s t : State Party Item} {e : Event Party Item} (hm : Move s e t) :
    t.taken = s.taken ++ (e.receipt t).map Prod.snd := by
  cases hm <;> simp [Event.receipt, Phase.inHand]

theorem send_phase (x : Item) : (next s (.send p x)).phase p = .queued x := update_same _ _ _

theorem receive_phase : (next s (.receive p)).phase p = .approaching := update_same _ _ _

theorem move_sends (hm : Move s (.step p) t) (hp : (s.phase p).Sends) :
    (t.phase p).Sends ∨ t.phase p = .idle := by
  cases hm with
  | yield => exact .inr (update_same _ _ _)
  | approach phase | doze phase | take phase | rouse phase =>
    simp [phase, Phase.Sends, Phase.AtTurn] at hp
  | _ =>
    left
    simp [Phase.Sends, Phase.AtTurn]

theorem move_receives (hm : Move s (.step p) t) (hp : (s.phase p).Receives) :
    (t.phase p).Receives ∨ ∃ x, t.phase p = .received x := by
  cases hm with
  | @take p x => exact .inr ⟨x, update_same _ _ _⟩
  | approach | doze | rouse =>
    left
    simp [Phase.Receives]
  | _ phase => simp [phase, Phase.Receives] at hp

theorem move_sends_taken (hm : Move s (.step p) t) (hp : (s.phase p).Sends) :
    t.taken = s.taken := by
  cases hm with
  | take phase => simp [phase, Phase.Sends, Phase.AtTurn] at hp
  | _ => rfl

end LeveledLog.Handoff
