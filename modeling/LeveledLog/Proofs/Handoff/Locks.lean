import LeveledLog.Handoff
import LeveledLog.Proofs.Run

/-!
Who holds the turn and the monitor of a hand-off, and who sleeps. In every run the two belong to
exactly the parties whose phases say so, a full slot leaves no receiver asleep, and an empty one no
sender. Whoever was woken and waits for the monitor counts as awake.
-/

namespace LeveledLog.Handoff

variable {Party Item : Type}

namespace Phase

def AtTurn : Phase Item → Prop
  | entering _ => True
  | filling _ => True
  | checking => True
  | leaving => True
  | asleep => True
  | woken => True
  | _ => False

def Inside : Phase Item → Prop
  | filling _ => True
  | checking => True
  | looking => True
  | _ => False

/-- A sender that has filled the slot and not seen it empty again. -/
def Waits : Phase Item → Prop
  | checking => True
  | asleep => True
  | woken => True
  | _ => False

def Sends : Phase Item → Prop
  | queued _ => True
  | p => p.AtTurn

def Receives : Phase Item → Prop
  | approaching => True
  | looking => True
  | dozing => True
  | roused => True
  | _ => False

variable {ph : Phase Item}

@[simp]
theorem atTurn_notify : ph.notify.AtTurn ↔ ph.AtTurn := by cases ph <;> rfl

@[simp]
theorem inside_notify : ph.notify.Inside ↔ ph.Inside := by cases ph <;> rfl

@[simp]
theorem waits_notify : ph.notify.Waits ↔ ph.Waits := by cases ph <;> rfl

@[simp]
theorem sends_notify : ph.notify.Sends ↔ ph.Sends := by cases ph <;> rfl

@[simp]
theorem receives_notify : ph.notify.Receives ↔ ph.Receives := by cases ph <;> rfl

@[simp]
theorem atRest_notify : ph.notify.AtRest ↔ ph.AtRest := by cases ph <;> rfl

@[simp]
theorem notify_ne_asleep : ph.notify ≠ .asleep := by cases ph <;> simp [notify]

@[simp]
theorem notify_ne_dozing : ph.notify ≠ .dozing := by cases ph <;> simp [notify]

@[simp]
theorem notify_eq_idle : ph.notify = .idle ↔ ph = .idle := by cases ph <;> simp [notify]

@[simp]
theorem notify_eq_received {x : Item} : ph.notify = .received x ↔ ph = .received x := by
  cases ph <;> simp [notify]

theorem Waits.atTurn (h : ph.Waits) : ph.AtTurn := by cases ph <;> trivial

theorem Waits.sends (h : ph.Waits) : ph.Sends := by cases ph <;> trivial

theorem AtTurn.sends (h : ph.AtTurn) : ph.Sends := by cases ph <;> trivial

theorem AtRest.not_atTurn (h : ph.AtRest) : ¬ph.AtTurn := by
  cases ph <;> simp_all [AtRest, AtTurn]

theorem AtRest.not_inside (h : ph.AtRest) : ¬ph.Inside := by
  cases ph <;> simp_all [AtRest, Inside]

theorem AtRest.not_waits (h : ph.AtRest) : ¬ph.Waits := by
  cases ph <;> simp_all [AtRest, Waits]

theorem AtRest.not_sends (h : ph.AtRest) : ¬ph.Sends := by
  cases ph <;> simp_all [AtRest, Sends, AtTurn]

end Phase

section

variable [DecidableEq Party]

def machine (Party Item : Type) [DecidableEq Party] :
    Machine (State Party Item) (Event Party Item) :=
  ⟨Enabled, next⟩

instance (s : State Party Item) (e : Event Party Item) :
    Decidable ((machine Party Item).Enabled s e) :=
  inferInstanceAs (Decidable (Enabled s e))

inductive Move (s : State Party Item) : Event Party Item → State Party Item → Prop where
  | send {p x} (rest : (s.phase p).AtRest) : Move s (.send p x) (s.moved p (.queued x))
  | receive {p} (rest : (s.phase p).AtRest) : Move s (.receive p) (s.moved p .approaching)
  | takeTurn {p x} (phase : s.phase p = .queued x) (free : s.turn = none) :
      Move s (.step p) ({ s with turn := some p }.moved p (.entering x))
  | enter {p x} (phase : s.phase p = .entering x) (free : s.monitor = none) :
      Move s (.step p) ({ s with monitor := some p }.moved p (.filling x))
  | fill {p x} (phase : s.phase p = .filling x) :
      Move s (.step p) ({ s with
        slot := some x, deposited := s.deposited ++ [(p, x)] }.notified.moved p .checking)
  | sleep {p x} (phase : s.phase p = .checking) (full : s.slot = some x) :
      Move s (.step p) ({ s with monitor := none }.moved p .asleep)
  | leave {p} (phase : s.phase p = .checking) (empty : s.slot = none) :
      Move s (.step p) ({ s with monitor := none }.moved p .leaving)
  | yield {p} (phase : s.phase p = .leaving) :
      Move s (.step p) ({ s with
        turn := none, returned := update s.returned p (s.returned p + 1) }.moved p .idle)
  | wake {p} (phase : s.phase p = .woken) (free : s.monitor = none) :
      Move s (.step p) ({ s with monitor := some p }.moved p .checking)
  | approach {p} (phase : s.phase p = .approaching) (free : s.monitor = none) :
      Move s (.step p) ({ s with monitor := some p }.moved p .looking)
  | doze {p} (phase : s.phase p = .looking) (empty : s.slot = none) :
      Move s (.step p) ({ s with monitor := none }.moved p .dozing)
  | take {p x} (phase : s.phase p = .looking) (full : s.slot = some x) :
      Move s (.step p) ({ s with
        slot := none, monitor := none, taken := s.taken ++ [x] }.notified.moved p (.received x))
  | rouse {p} (phase : s.phase p = .roused) (free : s.monitor = none) :
      Move s (.step p) ({ s with monitor := some p }.moved p .looking)

theorem move_of_enabled {s : State Party Item} {e : Event Party Item} (h : Enabled s e) :
    Move s e (next s e) := by
  cases e with
  | send p x => exact .send h
  | receive p => exact .receive h
  | step p =>
    simp only [Enabled] at h
    simp only [next]
    cases hp : s.phase p <;> rw [hp] at h
    case queued => exact .takeTurn hp h
    case entering => exact .enter hp h
    case filling => exact .fill hp
    case checking =>
      simp only [advance]
      split
      · exact .sleep hp ‹_›
      · exact .leave hp ‹_›
    case leaving => exact .yield hp
    case woken => exact .wake hp h
    case approaching => exact .approach hp h
    case looking =>
      simp only [advance]
      split
      · exact .doze hp ‹_›
      · exact .take hp ‹_›
    case roused => exact .rouse hp h
    all_goals exact h.elim

end

/-- A lock belongs to exactly the party whose phase says that it holds it. -/
def Owned (owner : Option Party) (Holds : Phase Item → Prop) (phase : Party → Phase Item) : Prop :=
  ∀ p, owner = some p ↔ Holds (phase p)

namespace Owned

variable {owner : Option Party} {Holds : Phase Item → Prop} {phase : Party → Phase Item}
  {p q : Party} {ph : Phase Item}

theorem unique (h : Owned owner Holds phase) (hp : Holds (phase p)) (hq : Holds (phase q)) :
    p = q :=
  Option.some.inj (((h p).mpr hp).symm.trans ((h q).mpr hq))

theorem notify (h : Owned owner Holds phase) (hn : ∀ ph, Holds ph.notify ↔ Holds ph) :
    Owned owner Holds fun p => (phase p).notify :=
  fun p => (h p).trans (hn (phase p)).symm

variable [DecidableEq Party]

theorem acquire (h : Owned owner Holds phase) (free : owner = none) (hp : Holds ph) :
    Owned (some p) Holds (update phase p ph) := by
  intro q
  by_cases hq : q = p
  · subst q
    simpa using hp
  · rw [update_other _ _ hq, ← h q, free]
    simpa using Ne.symm hq

theorem release (h : Owned owner Holds phase) (hold : Holds (phase p)) (hp : ¬Holds ph) :
    Owned none Holds (update phase p ph) := by
  intro q
  by_cases hq : q = p
  · subst q
    simpa using hp
  · rw [update_other _ _ hq]
    have hn : ¬Holds (phase q) := fun hk => hq (h.unique hk hold)
    simpa using hn

theorem keep (h : Owned owner Holds phase) (hp : Holds ph ↔ Holds (phase p)) :
    Owned owner Holds (update phase p ph) := by
  intro q
  by_cases hq : q = p
  · subst q
    rw [update_same, hp]
    exact h p
  · rw [update_other _ _ hq]
    exact h q

end Owned

structure Exclusive (s : State Party Item) : Prop where
  turn : Owned s.turn Phase.AtTurn s.phase
  monitor : Owned s.monitor Phase.Inside s.phase

theorem initial_exclusive : Exclusive (initial : State Party Item) := by
  constructor <;> intro p <;> simp [initial, Phase.AtTurn, Phase.Inside]

/-- Nobody sleeps through a change of the slot that concerns it. -/
structure Alert (s : State Party Item) : Prop where
  dozing : ∀ p, s.phase p = .dozing → s.slot = none
  asleep : ∀ p, s.phase p = .asleep → s.slot ≠ none

theorem initial_alert : Alert (initial : State Party Item) := by
  constructor <;> intro p <;> simp [initial]

variable [DecidableEq Party]

theorem move_keeps_exclusive {s t : State Party Item} {e : Event Party Item} (hm : Move s e t)
    (h : Exclusive s) : Exclusive t := by
  obtain ⟨ht, hmon⟩ := h
  cases hm with
  | send rest | receive rest =>
    exact ⟨ht.keep (iff_of_false id rest.not_atTurn), hmon.keep (iff_of_false id rest.not_inside)⟩
  | takeTurn phase free =>
    exact ⟨ht.acquire free trivial, hmon.keep (by simp [Phase.Inside, phase])⟩
  | enter phase free | wake phase free | approach phase free | rouse phase free =>
    exact ⟨ht.keep (by simp [Phase.AtTurn, phase]), hmon.acquire free trivial⟩
  | fill phase =>
    have htn := ht.notify fun _ => Phase.atTurn_notify
    have hmn := hmon.notify fun _ => Phase.inside_notify
    exact ⟨htn.keep (by simp [Phase.AtTurn, Phase.notify, phase]),
      hmn.keep (by simp [Phase.Inside, Phase.notify, phase])⟩
  | sleep phase | leave phase | doze phase =>
    exact ⟨ht.keep (by simp [Phase.AtTurn, phase]),
      hmon.release (by simp [Phase.Inside, phase]) (by simp [Phase.Inside])⟩
  | yield phase =>
    exact ⟨ht.release (by simp [Phase.AtTurn, phase]) (by simp [Phase.AtTurn]),
      hmon.keep (by simp [Phase.Inside, phase])⟩
  | take phase =>
    have htn := ht.notify fun _ => Phase.atTurn_notify
    have hmn := hmon.notify fun _ => Phase.inside_notify
    exact ⟨htn.keep (by simp [Phase.AtTurn, Phase.notify, phase]),
      hmn.release (by simp [Phase.Inside, Phase.notify, phase]) (by simp [Phase.Inside])⟩

theorem Alert.moved {s t : State Party Item} {p : Party} {ph : Phase Item} (h : Alert s)
    (hslot : t.slot = s.slot) (hphase : t.phase = update s.phase p ph)
    (hd : ph = .dozing → s.slot = none) (ha : ph = .asleep → s.slot ≠ none) : Alert t := by
  constructor
  · intro q hq
    rw [hphase] at hq
    rw [hslot]
    by_cases hp : q = p
    · subst q
      exact hd (by simpa using hq)
    · rw [update_other _ _ hp] at hq
      exact h.dozing q hq
  · intro q hq
    rw [hphase] at hq
    rw [hslot]
    by_cases hp : q = p
    · subst q
      exact ha (by simpa using hq)
    · rw [update_other _ _ hp] at hq
      exact h.asleep q hq

theorem alert_of_notified {s t : State Party Item} {p : Party} {ph : Phase Item}
    (hphase : t.phase = update s.notified.phase p ph) (hd : ph ≠ .dozing) (ha : ph ≠ .asleep) :
    Alert t := by
  constructor <;> intro q hq <;> rw [hphase] at hq <;> by_cases hp : q = p
  · subst q
    exact absurd (by simpa using hq) hd
  · rw [update_other _ _ hp] at hq
    exact absurd hq Phase.notify_ne_dozing
  · subst q
    exact absurd (by simpa using hq) ha
  · rw [update_other _ _ hp] at hq
    exact absurd hq Phase.notify_ne_asleep

theorem move_keeps_alert {s t : State Party Item} {e : Event Party Item} (hm : Move s e t)
    (h : Alert s) : Alert t := by
  cases hm with
  | fill | take => exact alert_of_notified rfl (by simp) (by simp)
  | sleep phase full => exact h.moved rfl rfl (by simp) (by simp [full])
  | doze phase empty => exact h.moved rfl rfl (fun _ => empty) (by simp)
  | send | receive | takeTurn | enter | leave | yield | wake | approach | rouse =>
    exact h.moved rfl rfl (by simp) (by simp)

end LeveledLog.Handoff
