import LeveledLog.Proofs.Handoff.Order

/-!
Which sends have returned. A sender keeps its turn from before it fills the slot until its send
returns, so of the items put into the slot only the latest can belong to a send that goes on. That
a send ever returns is not claimed.
-/

namespace LeveledLog.Handoff

variable {Party Item : Type}

def Phase.Filled : Phase Item → Prop
  | checking => True
  | asleep => True
  | woken => True
  | leaving => True
  | _ => False

namespace Phase

variable {ph : Phase Item}

@[simp]
theorem filled_notify : ph.notify.Filled ↔ ph.Filled := by cases ph <;> rfl

theorem Filled.atTurn (h : ph.Filled) : ph.AtTurn := by cases ph <;> trivial

theorem Waits.filled (h : ph.Waits) : ph.Filled := by cases ph <;> trivial

theorem AtRest.not_filled (h : ph.AtRest) : ¬ph.Filled := by
  cases ph <;> simp_all [AtRest, Filled]

theorem Filled.pending_eq (h : ph.Filled) : ph.pending = [] := by
  cases ph <;> simp_all [Filled, pending]

theorem pending_of_sends (h : ph.Sends) (hf : ¬ph.Filled) : ∃ x, ph.pending = [x] := by
  cases ph <;> simp_all [Sends, AtTurn, Filled, pending]

end Phase

/-- But for the latest one, the items put into the slot are those of the sends that have
returned. -/
structure Returned (s : State Party Item) (done : List (Party × Item)) : Prop where
  settled : (∀ p, ¬(s.phase p).Filled) → s.deposited = done
  latest : ∀ p, (s.phase p).Filled → ∃ x, s.deposited = done ++ [(p, x)]

theorem initial_returned : Returned (initial : State Party Item) [] := by
  constructor
  · intro _
    rfl
  · intro p hp
    simp [initial, Phase.Filled] at hp

section

variable {s : State Party Item} {done : List (Party × Item)}

theorem Returned.kept {t : State Party Item} (h : Returned s done)
    (hd : t.deposited = s.deposited) (hf : ∀ q, (t.phase q).Filled ↔ (s.phase q).Filled) :
    Returned t done := by
  constructor
  · intro hn
    rw [hd]
    exact h.settled fun q hq => hn q ((hf q).mpr hq)
  · intro q hq
    rw [hd]
    exact h.latest q ((hf q).mp hq)

theorem Returned.deposited (h : Returned s done) : done <+: s.deposited := by
  by_cases hn : ∀ p, ¬(s.phase p).Filled
  · exact h.settled hn ▸ List.prefix_rfl
  · push Not at hn
    obtain ⟨p, hp⟩ := hn
    obtain ⟨x, hx⟩ := h.latest p hp
    rw [hx]
    exact List.prefix_append _ _

theorem Returned.taken (h : Returned s done) (hc : Conserved s) :
    done.map Prod.snd <+: s.taken := by
  cases hslot : s.slot with
  | none =>
    rw [taken_of_empty hc hslot]
    exact h.deposited.map _
  | some x =>
    obtain ⟨p, before, hb, hp⟩ := hc.latest x hslot
    obtain ⟨y, hy⟩ := h.latest p hp.filled
    have hbefore : done = before := (List.append_inj' (hy.symm.trans hb) rfl).1
    rw [taken_of_full hc hslot hb]
    exact hbefore ▸ List.prefix_rfl

end

variable [DecidableEq Party]

/-- The send that returns with an event: its party, and the latest item of the party. -/
def returning (s : State Party Item) : Event Party Item → List (Party × Item)
  | .step p =>
    match s.phase p with
    | .leaving => (s.deposits p).getLast?.toList.map (p, ·)
    | _ => []
  | _ => []

theorem move_keeps_returned {s t : State Party Item} {e : Event Party Item} (hm : Move s e t)
    (he : Exclusive s) {done : List (Party × Item)} (h : Returned s done) :
    Returned t (done ++ returning s e) := by
  cases hm with
  | @fill p x phase =>
    -- The filler is at its turn, so no other sender is past its own filling.
    have hnone : ∀ q, ¬(s.phase q).Filled := by
      intro q hq
      obtain rfl : q = p := he.turn.unique hq.atTurn (by simp [phase, Phase.AtTurn])
      simp [phase, Phase.Filled] at hq
    have hdone := h.settled hnone
    simp only [returning, phase, List.append_nil]
    constructor
    · intro hn
      exact absurd (by simp [Phase.Filled]) (hn p)
    · intro q hq
      by_cases hqp : q = p
      · subst q
        exact ⟨x, by simp [hdone]⟩
      · simp only [moved_phase, update_other _ _ hqp, notified_phase, Phase.filled_notify] at hq
        exact absurd hq (hnone q)
  | @yield p phase =>
    have hp : (s.phase p).Filled := by simp [phase, Phase.Filled]
    obtain ⟨x, hx⟩ := h.latest p hp
    have hreturns : returning s (.step p) = [(p, x)] := by
      simp [returning, phase, State.deposits, hx, List.filter_append]
    rw [hreturns]
    constructor
    · intro _
      exact hx
    · intro q hq
      by_cases hqp : q = p
      · subst q
        simp [Phase.Filled] at hq
      · simp only [moved_phase, update_other _ _ hqp] at hq
        exact absurd (he.turn.unique hq.atTurn hp.atTurn) hqp
  | send rest | receive rest =>
    simp only [returning, List.append_nil]
    exact h.kept rfl (holds_update (iff_of_false id rest.not_filled))
  | takeTurn phase | enter phase | sleep phase | leave phase | wake phase | approach phase
  | doze phase | rouse phase =>
    simp only [returning, phase, List.append_nil]
    exact h.kept rfl (holds_update (by simp [phase, Phase.Filled]))
  | take phase =>
    simp only [returning, phase, List.append_nil]
    refine h.kept rfl fun q => ?_
    refine Iff.trans (holds_update ?_ q) Phase.filled_notify
    simp [phase, Phase.notify, Phase.Filled]

/-- The items that a party has begun to send are those of its sends that have returned, and then
the one that it is sending. -/
theorem Returned.offered {s : State Party Item} {done : List (Party × Item)} (h : Returned s done)
    (p : Party) :
    ((s.phase p).Sends → ∃ x,
      s.offered p = (done.filter fun d => d.1 = p).map Prod.snd ++ [x]) ∧
    (¬(s.phase p).Sends → s.offered p = (done.filter fun d => d.1 = p).map Prod.snd) := by
  by_cases hf : (s.phase p).Filled
  · obtain ⟨x, hx⟩ := h.latest p hf
    refine ⟨fun _ => ⟨x, ?_⟩, fun hn => absurd hf.atTurn.sends hn⟩
    simp [State.offered, State.deposits, hx, List.filter_append, hf.pending_eq]
  · have hdeposits : s.deposits p = (done.filter fun d => d.1 = p).map Prod.snd := by
      by_cases hn : ∀ q, ¬(s.phase q).Filled
      · rw [State.deposits, h.settled hn]
      · push Not at hn
        obtain ⟨q, hq⟩ := hn
        obtain ⟨x, hx⟩ := h.latest q hq
        have hqp : q ≠ p := fun heq => hf (heq ▸ hq)
        simp [State.deposits, hx, List.filter_append, hqp]
    constructor
    · intro hs
      obtain ⟨x, hx⟩ := Phase.pending_of_sends hs hf
      exact ⟨x, by rw [State.offered, hdeposits, hx]⟩
    · intro hs
      rw [State.offered, hdeposits, Phase.pending_of_not_sends hs, List.append_nil]

end LeveledLog.Handoff
