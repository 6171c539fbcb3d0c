import LeveledLog.Proofs.Handoff.Locks

/-!
What becomes of the items. Through every run of a hand-off each item is put into an empty slot and
taken from it once, in the same order, and a send returns only after its own item was taken. Items
need not differ: they are told apart by their senders and their positions.
-/

namespace LeveledLog.Handoff

variable {Party Item : Type}

namespace Phase

def pending : Phase Item → List Item
  | queued x => [x]
  | entering x => [x]
  | filling x => [x]
  | _ => []

@[simp]
theorem pending_notify (ph : Phase Item) : ph.notify.pending = ph.pending := by cases ph <;> rfl

theorem AtRest.pending_eq {ph : Phase Item} (h : ph.AtRest) : ph.pending = [] := by
  cases ph <;> simp_all [AtRest, pending]

theorem Waits.pending_eq {ph : Phase Item} (h : ph.Waits) : ph.pending = [] := by
  cases ph <;> simp_all [Waits, pending]

theorem pending_of_not_sends {ph : Phase Item} (h : ¬ph.Sends) : ph.pending = [] := by
  cases ph <;> simp_all [Sends, AtTurn, pending]

end Phase

/-- The items in the slot and before it are those that were put into it, and the last one belongs
to a sender that still waits for it. -/
structure Conserved (s : State Party Item) : Prop where
  order : s.deposited.map Prod.snd = s.taken ++ s.slot.toList
  latest : ∀ x, s.slot = some x →
    ∃ p before, s.deposited = before ++ [(p, x)] ∧ (s.phase p).Waits

theorem initial_conserved : Conserved (initial : State Party Item) := by
  constructor <;> simp [initial]

theorem slot_empty_of_turn {s : State Party Item} (he : Exclusive s) (hc : Conserved s)
    {p : Party} (ht : (s.phase p).AtTurn) (hw : ¬(s.phase p).Waits) : s.slot = none := by
  cases hx : s.slot with
  | none => rfl
  | some x =>
    obtain ⟨q, _, _, hq⟩ := hc.latest x hx
    have hpq := he.turn.unique ht hq.atTurn
    subst hpq
    exact absurd hq hw

theorem taken_of_empty {s : State Party Item} (h : Conserved s) (hs : s.slot = none) :
    s.taken = s.deposited.map Prod.snd := by
  rw [h.order, hs]
  simp

theorem taken_of_full {s : State Party Item} {q : Party} {x : Item}
    {before : List (Party × Item)} (h : Conserved s) (hs : s.slot = some x)
    (hb : s.deposited = before ++ [(q, x)]) : s.taken = before.map Prod.snd := by
  have ho := h.order
  rw [hs, hb, List.map_append] at ho
  exact (List.append_cancel_right ho).symm

variable [DecidableEq Party]

def State.deposits (s : State Party Item) (p : Party) : List Item :=
  (s.deposited.filter fun d => d.1 = p).map Prod.snd

def State.offered (s : State Party Item) (p : Party) : List Item :=
  s.deposits p ++ (s.phase p).pending

def Event.offer (p : Party) : Event Party Item → List Item
  | .send q x => if q = p then [x] else []
  | _ => []

theorem deposits_append {s t : State Party Item} {q : Party} {x : Item}
    (hd : t.deposited = s.deposited ++ [(q, x)]) (p : Party) :
    t.deposits p = s.deposits p ++ if q = p then [x] else [] := by
  by_cases hq : q = p <;> simp [State.deposits, hd, List.filter_append, hq]

theorem offered_moved {s t : State Party Item} {q : Party} {ph : Phase Item}
    (hd : t.deposited = s.deposited) (hphase : t.phase = update s.phase q ph)
    (hp : ph.pending = (s.phase q).pending) {p : Party} :
    t.offered p = s.offered p := by
  simp only [State.offered, State.deposits, hd, hphase]
  by_cases hq : p = q
  · subst p
    rw [update_same, hp]
  · rw [update_other _ _ hq]

theorem move_offered {s t : State Party Item} {e : Event Party Item} (hm : Move s e t)
    (p : Party) : t.offered p = s.offered p ++ e.offer p := by
  cases hm with
  | @send q x rest =>
    by_cases hq : q = p
    · subst q
      simp only [State.offered, State.deposits, Event.offer, rest.pending_eq]
      simp [Phase.pending]
    · simp [State.offered, State.deposits, Event.offer, hq, update_other _ _ (Ne.symm hq)]
  | @fill q x phase =>
    simp only [Event.offer, List.append_nil, State.offered]
    rw [deposits_append (s := s) (q := q) (x := x) rfl]
    by_cases hq : q = p
    · subst q
      simp [Phase.pending, phase]
    · simp [hq, update_other _ _ (Ne.symm hq)]
  | @take q x phase full =>
    simp only [Event.offer, List.append_nil, State.offered, State.deposits]
    by_cases hq : p = q
    · subst p
      simp [Phase.pending, phase]
    · simp [update_other _ _ hq]
  | receive rest =>
    simp only [Event.offer, List.append_nil]
    exact offered_moved (by rfl) (by rfl) (by exact rest.pending_eq.symm)
  | takeTurn phase | enter phase | sleep phase | leave phase | yield phase | wake phase
  | approach phase | doze phase | rouse phase =>
    simp only [Event.offer, List.append_nil]
    exact offered_moved (by rfl) (by rfl) (by simp [Phase.pending, phase])

theorem Conserved.moved {s t : State Party Item} {p : Party} {ph : Phase Item}
    (h : Conserved s) (hd : t.deposited = s.deposited) (htaken : t.taken = s.taken)
    (hslot : t.slot = s.slot) (hphase : t.phase = update s.phase p ph)
    (hw : (s.phase p).Waits → s.slot ≠ none → ph.Waits) : Conserved t := by
  constructor
  · rw [hd, htaken, hslot]
    exact h.order
  · intro x hx
    rw [hslot] at hx
    obtain ⟨q, before, hb, hq⟩ := h.latest x hx
    refine ⟨q, before, hd.trans hb, ?_⟩
    rw [hphase]
    by_cases hpq : q = p
    · subst q
      rw [update_same]
      exact hw hq (by simp [hx])
    · rw [update_other _ _ hpq]
      exact hq

theorem move_keeps_conserved {s t : State Party Item} {e : Event Party Item} (hm : Move s e t)
    (he : Exclusive s) (h : Conserved s) : Conserved t := by
  cases hm with
  | @fill p x phase =>
    have hslot : s.slot = none :=
      slot_empty_of_turn he h (p := p) (by simp [Phase.AtTurn, phase])
        (by simp [Phase.Waits, phase])
    constructor
    · have ho := h.order
      simp only [hslot, Option.toList_none, List.append_nil] at ho
      simp [ho]
    · intro y hy
      simp only [moved_slot, notified_slot, Option.some.injEq] at hy
      subst y
      exact ⟨p, s.deposited, rfl, by simp [Phase.Waits]⟩
  | @take p x phase full =>
    constructor
    · have ho := h.order
      rw [full] at ho
      simpa using ho
    · intro y hy
      simp at hy
  | send rest | receive rest => exact h.moved rfl rfl rfl rfl fun hw => absurd hw rest.not_waits
  | leave phase empty => exact h.moved rfl rfl rfl rfl fun _ hn => absurd empty hn
  | takeTurn phase | enter phase | sleep phase | yield phase | wake phase | approach phase
  | doze phase | rouse phase => exact h.moved rfl rfl rfl rfl (by simp [Phase.Waits, phase])

theorem move_deposited {s t : State Party Item} {e : Event Party Item} (hm : Move s e t) :
    s.deposited <+: t.deposited := by
  cases hm with
  | fill => exact List.prefix_append _ _
  | _ => exact List.prefix_rfl

theorem mem_offered {s : State Party Item} {p : Party} {x : Item} (h : (p, x) ∈ s.deposited) :
    x ∈ s.offered p :=
  List.mem_append_left _ (List.mem_map.mpr ⟨(p, x), List.mem_filter.mpr ⟨h, by simp⟩, rfl⟩)

theorem mem_offered_of_deposited {s : State Party Item} {x : Item}
    (h : x ∈ s.deposited.map Prod.snd) : ∃ p, x ∈ s.offered p := by
  obtain ⟨d, hd, rfl⟩ := List.mem_map.mp h
  exact ⟨d.1, mem_offered hd⟩

/-- How many sends of a party have returned: all that it has begun, but for one that goes on. -/
structure Counted (s : State Party Item) : Prop where
  busy : ∀ p, (s.phase p).Sends → s.returned p + 1 = (s.offered p).length
  free : ∀ p, ¬(s.phase p).Sends → s.returned p = (s.offered p).length

theorem initial_counted : Counted (initial : State Party Item) := by
  constructor
  · intro p hp
    simp [initial, Phase.Sends, Phase.AtTurn] at hp
  · intro p _
    simp [initial, State.offered, State.deposits, Phase.pending]

theorem Counted.kept {s t : State Party Item} (h : Counted s)
    (ho : ∀ q, t.offered q = s.offered q) (hr : t.returned = s.returned)
    (hs : ∀ q, (t.phase q).Sends ↔ (s.phase q).Sends) : Counted t := by
  constructor
  · intro q hb
    rw [hr, ho]
    exact h.busy q ((hs q).mp hb)
  · intro q hf
    rw [hr, ho]
    exact h.free q fun hk => hf ((hs q).mpr hk)

theorem holds_update {Holds : Phase Item → Prop} {f : Party → Phase Item} {p : Party}
    {ph : Phase Item} (h : Holds ph ↔ Holds (f p)) (q : Party) :
    Holds (update f p ph q) ↔ Holds (f q) := by
  by_cases hq : q = p
  · subst q
    rw [update_same, h]
  · rw [update_other _ _ hq]

theorem move_keeps_counted {s t : State Party Item} {e : Event Party Item} (hm : Move s e t)
    (h : Counted s) : Counted t := by
  have ho := move_offered hm
  cases hm with
  | @send p x rest =>
    constructor
    · intro q hb
      rw [ho q]
      by_cases hq : q = p
      · subst q
        simpa [Event.offer] using h.free p rest.not_sends
      · simpa [Event.offer, Ne.symm hq] using
          h.busy q (by simpa [update_other _ _ hq] using hb)
    · intro q hf
      rw [ho q]
      by_cases hq : q = p
      · subst q
        simp [Phase.Sends] at hf
      · simpa [Event.offer, Ne.symm hq] using
          h.free q (by simpa [update_other _ _ hq] using hf)
  | @yield p phase =>
    simp only [Event.offer, List.append_nil] at ho
    have hp : (s.phase p).Sends := by simp [phase, Phase.Sends, Phase.AtTurn]
    constructor
    · intro q hb
      by_cases hq : q = p
      · subst q
        simp [Phase.Sends, Phase.AtTurn] at hb
      · rw [ho q]
        simpa [update_other _ _ hq] using h.busy q (by simpa [update_other _ _ hq] using hb)
    · intro q hf
      rw [ho q]
      by_cases hq : q = p
      · subst q
        simpa using h.busy p hp
      · simpa [update_other _ _ hq] using h.free q (by simpa [update_other _ _ hq] using hf)
  | receive rest =>
    simp only [Event.offer, List.append_nil] at ho
    exact h.kept ho rfl (holds_update (iff_of_false id rest.not_sends))
  | takeTurn phase | enter phase | sleep phase | leave phase | wake phase | approach phase
  | doze phase | rouse phase =>
    simp only [Event.offer, List.append_nil] at ho
    exact h.kept ho rfl (holds_update (by simp [phase, Phase.Sends, Phase.AtTurn]))
  | fill phase | take phase =>
    simp only [Event.offer, List.append_nil] at ho
    refine h.kept ho rfl fun q => ?_
    refine Iff.trans (holds_update ?_ q) Phase.sends_notify
    simp [phase, Phase.notify, Phase.Sends, Phase.AtTurn]

structure Invariant (s : State Party Item) : Prop where
  exclusive : Exclusive s
  alert : Alert s
  conserved : Conserved s
  counted : Counted s

theorem initial_invariant : Invariant (initial : State Party Item) :=
  ⟨initial_exclusive, initial_alert, initial_conserved, initial_counted⟩

theorem step_keeps_invariant {s : State Party Item} {e : Event Party Item} (he : Enabled s e)
    (h : Invariant s) : Invariant (next s e) := by
  have hm := move_of_enabled he
  exact ⟨move_keeps_exclusive hm h.exclusive, move_keeps_alert hm h.alert,
    move_keeps_conserved hm h.exclusive h.conserved, move_keeps_counted hm h.counted⟩

end LeveledLog.Handoff
