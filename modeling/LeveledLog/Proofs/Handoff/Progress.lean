import LeveledLog.Proofs.Handoff.Order

/-!
Whoever is at the hand-off can be waited for. A party that cannot go on itself waits for one that
can, or sleeps because of what is in the slot. That the party which can go on is ever chosen is
not claimed.
-/

namespace LeveledLog.Handoff

variable {Party Item : Type} {s : State Party Item} {p : Party}

def Moves (s : State Party Item) : Prop := ∃ p, Enabled s (.step p)

theorem moves_of_phase {ph : Phase Item} (hp : s.phase p = ph) (h : CanStep s ph) : Moves s :=
  ⟨p, by rw [Enabled, hp]; exact h⟩

theorem moves_of_inside (hp : (s.phase p).Inside) : Moves s := by
  cases hph : s.phase p <;> rw [hph] at hp
  case filling x => exact moves_of_phase hph trivial
  case checking => exact moves_of_phase hph trivial
  case looking => exact moves_of_phase hph trivial
  all_goals exact hp.elim

theorem monitor_free_or_moves (h : Exclusive s) : s.monitor = none ∨ Moves s := by
  cases hm : s.monitor with
  | none => exact .inl rfl
  | some q => exact .inr (moves_of_inside ((h.monitor q).mp hm))

theorem at_turn_moves (he : Exclusive s) (ha : Alert s) (hp : (s.phase p).AtTurn) :
    Moves s ∨ s.slot ≠ none := by
  rcases monitor_free_or_moves he with free | hm
  · cases hph : s.phase p <;> rw [hph] at hp
    case entering x => exact .inl (moves_of_phase hph free)
    case woken => exact .inl (moves_of_phase hph free)
    case filling x => exact .inl (moves_of_phase hph trivial)
    case checking => exact .inl (moves_of_phase hph trivial)
    case leaving => exact .inl (moves_of_phase hph trivial)
    case asleep => exact .inr (ha.asleep p hph)
    all_goals exact hp.elim
  · exact .inl hm

/-- A sender goes on, or somebody else does, unless the slot is full. -/
theorem sender_moves (he : Exclusive s) (ha : Alert s) (hp : (s.phase p).Sends) :
    Moves s ∨ s.slot ≠ none := by
  by_cases hq : (s.phase p).AtTurn
  · exact at_turn_moves he ha hq
  · obtain ⟨x, hph⟩ : ∃ x, s.phase p = .queued x := by
      cases hph : s.phase p <;> simp_all [Phase.Sends, Phase.AtTurn]
    cases ht : s.turn with
    | none => exact .inl (moves_of_phase hph ht)
    | some q => exact at_turn_moves he ha ((he.turn q).mp ht)

theorem receiver_moves (he : Exclusive s) (ha : Alert s) (hp : (s.phase p).Receives) :
    Moves s ∨ s.slot = none := by
  rcases monitor_free_or_moves he with free | hm
  · cases hph : s.phase p <;> rw [hph] at hp
    case approaching => exact .inl (moves_of_phase hph free)
    case roused => exact .inl (moves_of_phase hph free)
    case looking => exact .inl (moves_of_phase hph trivial)
    case dozing => exact .inr (ha.dozing p hph)
    all_goals exact hp.elim
  · exact .inl hm

end LeveledLog.Handoff
