import LeveledLog.Proofs.Handoff.Order
import LeveledLog.Proofs.Handoff.Parties
import LeveledLog.Proofs.Logger.Moves

/-!
How a logger and its hand-off fit together. A caller is at the hand-off exactly while it sends a
parcel, the worker exactly while it receives one, and each move of the logger is at most one event
of the hand-off, so all that holds of every hand-off holds of the one inside a logger.
-/

namespace LeveledLog.Logger

def Spent : Progress → Prop
  | .flushing _ _ _ => True
  | .done _ _ => True
  | _ => False

theorem finish_spent (ending : Ending) (looks : Nat) : Spent (finish ending looks) := by
  cases ending <;> trivial

theorem flushNext_spent (streams : List Stream) (flushed : List String) (looks : Nat) :
    Spent (flushNext streams flushed looks) := by
  unfold flushNext
  repeat' split
  all_goals trivial

theorem begin_cases (i : Invocation) :
    (begin i = .composing i ∧ ∀ l f a, i.call ≠ .leveled l f a) ∨
      ∃ l f a, begin i = .deciding i l ∧ i.call = .leveled l f a := by
  unfold begin
  cases hc : i.call with
  | leveled l f a => exact .inr ⟨l, f, a, rfl, rfl⟩
  | _ => exact .inl ⟨rfl, by simp⟩

def CallerFits : Progress → Handoff.Phase Parcel → Prop
  | .sending _ _ _ _, ph => ph.Sends
  | _, ph => ph = .idle

def WorkerFits : WorkerPhase → Handoff.Phase Parcel → Prop
  | .receiving, ph => ph.Receives ∨ ∃ x, ph = .received x
  | _, ph => ph.AtRest

theorem callerFits_notify {p : Progress} {ph : Handoff.Phase Parcel} :
    CallerFits p ph.notify ↔ CallerFits p ph := by
  cases p <;> simp [CallerFits]

theorem workerFits_notify {w : WorkerPhase} {ph : Handoff.Phase Parcel} :
    WorkerFits w ph.notify ↔ WorkerFits w ph := by
  cases w <;> simp [WorkerFits]

theorem WorkerFits.not_sends {w : WorkerPhase} {ph : Handoff.Phase Parcel}
    (h : WorkerFits w ph) : ¬ph.Sends := by
  have hrest : ph.AtRest ∨ ph.Receives := by
    cases w with
    | receiving =>
      rcases h with hr | ⟨x, rfl⟩
      · exact .inr hr
      · exact .inl trivial
    | _ => exact .inl h
  rcases hrest with hr | hr
  · exact hr.not_sends
  · cases ph <;> simp_all [Handoff.Phase.Receives, Handoff.Phase.Sends, Handoff.Phase.AtTurn]

structure Coupled (s : State) : Prop where
  own : s.callers s.own = .idle
  callers : ∀ t, t ≠ s.own → CallerFits (s.callers t) (s.channel.phase t)
  worker : WorkerFits s.worker (s.channel.phase s.own)

def OthersKept (t : Thread) (c d : Handoff.State Thread Parcel) : Prop :=
  ∀ q, q ≠ t → d.phase q = c.phase q ∨ d.phase q = (c.phase q).notify

theorem OthersKept.refl (t : Thread) (c : Handoff.State Thread Parcel) : OthersKept t c c :=
  fun _ _ => .inl rfl

theorem others_kept {c : Handoff.State Thread Parcel} {e : Handoff.Event Thread Parcel}
    (he : Handoff.Enabled c e) : OthersKept e.party c (Handoff.next c e) :=
  fun _ hq => Handoff.move_other (Handoff.move_of_enabled he) hq

namespace Coupled

variable {s u : State} {t : Thread} {p : Progress}

theorem ne_own (h : Coupled s) (hp : s.callers t = p) (hne : p ≠ .idle) : t ≠ s.own := by
  intro ht
  subst t
  exact hne (hp.symm.trans h.own)

theorem of_caller (h : Coupled s) (ht : t ≠ s.own) (hown : u.own = s.own)
    (hworker : u.worker = s.worker) (hcallers : u.callers = update s.callers t p)
    (hothers : OthersKept t s.channel u.channel) (hfits : CallerFits p (u.channel.phase t)) :
    Coupled u := by
  constructor
  · rw [hown, hcallers, update_other _ _ ht.symm]
    exact h.own
  · intro q hq
    rw [hown] at hq
    rw [hcallers]
    by_cases hqt : q = t
    · subst q
      rw [update_same]
      exact hfits
    · rw [update_other _ _ hqt]
      rcases hothers q hqt with hph | hph <;> rw [hph]
      · exact h.callers q hq
      · exact callerFits_notify.mpr (h.callers q hq)
  · rw [hown, hworker]
    rcases hothers s.own ht.symm with hph | hph <;> rw [hph]
    · exact h.worker
    · exact workerFits_notify.mpr h.worker

theorem of_worker (h : Coupled s) (hown : u.own = s.own) (hcallers : u.callers = s.callers)
    (hothers : OthersKept s.own s.channel u.channel)
    (hfits : WorkerFits u.worker (u.channel.phase s.own)) : Coupled u := by
  constructor
  · rw [hown, hcallers]
    exact h.own
  · intro q hq
    rw [hown] at hq
    rw [hcallers]
    rcases hothers q hq with hph | hph <;> rw [hph]
    · exact h.callers q hq
    · exact callerFits_notify.mpr (h.callers q hq)
  · rw [hown]
    exact hfits

theorem worker_rest (h : Coupled s) (hw : s.worker ≠ .receiving) :
    (s.channel.phase s.own).AtRest := by
  have hf := h.worker
  cases hp : s.worker <;> simp_all [WorkerFits]

theorem fits (h : Coupled s) (hp : s.callers t = p) (hne : p ≠ .idle) :
    CallerFits p (s.channel.phase t) := by
  subst p
  exact h.callers t (h.ne_own rfl hne)

theorem relabel {q : Progress} (h : Coupled s) (hp : s.callers t = p) (hne : p ≠ .idle)
    (hidle : CallerFits p (s.channel.phase t) → s.channel.phase t = .idle)
    (hown : u.own = s.own) (hworker : u.worker = s.worker) (hchannel : u.channel = s.channel)
    (hcallers : u.callers = update s.callers t q) (hfits : CallerFits q .idle) : Coupled u := by
  have ht : t ≠ s.own := h.ne_own hp hne
  refine h.of_caller ht hown hworker hcallers ?_ ?_ <;> rw [hchannel]
  · exact .refl t s.channel
  · rw [hidle (h.fits hp hne)]
    exact hfits

variable {w : Option Nat} {tasks : List Task} {ending : Ending} {looks : Nat}

theorem hand_enabled (h : Coupled s) (handing : s.callers t = .handing tasks ending looks)
    (x : Parcel) : Handoff.Enabled s.channel (.send t x) := by
  have hidle : s.channel.phase t = .idle := h.fits handing (by simp)
  simp only [Handoff.Enabled, hidle]
  trivial

theorem hand {x : Parcel} (h : Coupled s) (handing : s.callers t = .handing tasks ending looks)
    (hown : u.own = s.own) (hworker : u.worker = s.worker)
    (hchannel : u.channel = Handoff.next s.channel (.send t x))
    (hcallers : u.callers = update s.callers t p)
    (hfits : CallerFits p (.queued x)) : Coupled u := by
  have ht : t ≠ s.own := h.ne_own handing (by simp)
  refine h.of_caller ht hown hworker hcallers ?_ ?_ <;> rw [hchannel]
  · exact others_kept (e := .send t x) (h.hand_enabled handing x)
  · rw [Handoff.send_phase]
    exact hfits

theorem sends (h : Coupled s) (sending : s.callers t = .sending w tasks ending looks) :
    (s.channel.phase t).Sends :=
  h.fits sending (by simp)

theorem sent_idle (h : Coupled s) (sending : s.callers t = .sending w tasks ending looks)
    (ready : Handoff.Enabled s.channel (.step t))
    (rest : ((Handoff.next s.channel (.step t)).phase t).AtRest) :
    (Handoff.next s.channel (.step t)).phase t = .idle := by
  rcases Handoff.move_sends (Handoff.move_of_enabled ready) (h.sends sending) with hs | hi
  · exact absurd hs rest.not_sends
  · exact hi

end Coupled

theorem begin_fits (i : Invocation) : CallerFits (begin i) .idle := by
  rcases begin_cases i with ⟨h, _⟩ | ⟨l, _, _, h, _⟩ <;> rw [h] <;> rfl

theorem Spent.fits {p : Progress} (h : Spent p) : CallerFits p .idle := by
  cases p <;> first | rfl | exact h.elim

theorem initial_coupled (number : Nat) (mode : Mode) (o : Options) :
    Coupled (initial number mode o) :=
  ⟨rfl, fun _ _ => rfl, trivial⟩

theorem receive_keeps_coupled {s : State} (h : Coupled s)
    (hrest : (s.channel.phase s.own).AtRest) : Coupled (receive s) := by
  refine h.of_worker rfl rfl (others_kept (e := .receive s.own) hrest) (.inl ?_)
  change ((Handoff.next s.channel (.receive s.own)).phase s.own).Receives
  rw [Handoff.receive_phase]
  trivial

theorem move_keeps_coupled {now : Stamp} {s u : State} {e : Event} (hm : Move now s e u)
    (h : Coupled s) : Coupled u := by
  cases hm with
  | @start t i other idle =>
    have hidle : s.channel.phase t = .idle := by
      have hf := h.callers t other
      rw [idle] at hf
      exact hf
    refine h.of_caller other rfl rfl rfl (.refl t s.channel) ?_
    change CallerFits (begin i) (s.channel.phase t)
    rw [hidle]
    exact begin_fits i
  | collect done => exact h.relabel done (by simp) id rfl rfl rfl rfl rfl
  | drop deciding low => exact h.relabel deciding (by simp) id rfl rfl rfl rfl rfl
  | pass deciding high => exact h.relabel deciding (by simp) id rfl rfl rfl rfl rfl
  | compose composing made => exact h.relabel composing (by simp) id rfl rfl rfl rfl rfl
  | refuse composing failed => exact h.relabel composing (by simp) id rfl rfl rfl rfl rfl
  | finish handing => exact h.relabel handing (by simp) id rfl rfl rfl rfl (finish_spent _ _).fits
  | cross awaiting reached => exact h.relabel awaiting (by simp) id rfl rfl rfl rfl rfl
  | flushStream flushing =>
    exact h.relabel flushing (by simp) id rfl rfl rfl rfl (flushNext_spent _ _ _).fits
  | handLine handing => exact h.hand handing rfl rfl rfl rfl trivial
  | handBarrier handing => exact h.hand handing rfl rfl rfl rfl trivial
  | @send t w tasks ending looks sending ready busy =>
    have ht : t ≠ s.own := h.ne_own sending (by simp)
    refine h.of_caller ht rfl rfl (update_eq_self sending).symm
      (others_kept (e := .step t) ready) ?_
    rcases Handoff.move_sends (Handoff.move_of_enabled ready) (h.sends sending) with hs | hi
    · exact hs
    · exact absurd (by rw [hi]; trivial) busy
  | sentLine sending ready rest | sentBarrier sending ready rest =>
    have ht := h.ne_own sending (by simp)
    exact h.of_caller ht rfl rfl rfl (others_kept (e := .step _) ready)
      (h.sent_idle sending ready rest)
  | reported reporting => exact receive_keeps_coupled h (h.worker_rest (by simp [reporting]))
  | flushed flushing => exact receive_keeps_coupled h (h.worker_rest (by simp [flushing]))
  | @release b outcome receiving received =>
    refine receive_keeps_coupled (h.of_worker rfl rfl (.refl _ _) h.worker) ?_
    change (s.channel.phase s.own).AtRest
    rw [received]
    trivial
  | @take outcome receiving ready =>
    refine h.of_worker rfl rfl (others_kept (e := .step s.own) ready) ?_
    change WorkerFits s.worker _
    have hf := h.worker
    rw [receiving] at hf ⊢
    rcases hf with hr | ⟨x, hx⟩
    · exact Handoff.move_receives (Handoff.move_of_enabled ready) hr
    · rw [Handoff.Enabled, hx] at ready
      exact ready.elim
  | write receiving received | lose receiving received =>
    refine h.of_worker rfl rfl (.refl _ _) ?_
    change (s.channel.phase s.own).AtRest
    rw [received]
    trivial
  | written writing | writeFailed writing | writeEnded writing =>
    exact h.of_worker rfl rfl (.refl _ _) (h.worker_rest (by simp [writing]))
  | flushFailed flushing | flushEnded flushing =>
    exact h.of_worker rfl rfl (.refl _ _) (h.worker_rest (by simp [flushing]))
  | ownCall busy => exact h.of_worker rfl rfl (.refl _ _) h.worker

/-- A move of a logger is at most one event of its hand-off. -/
theorem move_channel {now : Stamp} {s u : State} {e : Event} (hm : Move now s e u)
    (h : Coupled s) :
    u.channel = s.channel ∨
      ∃ c, Handoff.Enabled s.channel c ∧ u.channel = Handoff.next s.channel c := by
  cases hm with
  | handLine handing => exact .inr ⟨_, h.hand_enabled handing _, rfl⟩
  | handBarrier handing => exact .inr ⟨_, h.hand_enabled handing _, rfl⟩
  | send sending ready => exact .inr ⟨_, ready, rfl⟩
  | sentLine sending ready => exact .inr ⟨_, ready, rfl⟩
  | sentBarrier sending ready => exact .inr ⟨_, ready, rfl⟩
  | take receiving ready => exact .inr ⟨_, ready, rfl⟩
  | reported reporting =>
    exact .inr ⟨.receive s.own, h.worker_rest (by simp [reporting]), rfl⟩
  | flushed flushing =>
    exact .inr ⟨.receive s.own, h.worker_rest (by simp [flushing]), rfl⟩
  | release receiving received =>
    refine .inr ⟨.receive s.own, ?_, rfl⟩
    simp only [Handoff.Enabled, received]
    trivial
  | _ => exact .inl rfl

structure Sound (s : State) : Prop where
  coupled : Coupled s
  channel : Handoff.Invariant s.channel

theorem move_keeps_sound {now : Stamp} {s u : State} {e : Event} (hm : Move now s e u)
    (h : Sound s) : Sound u := by
  refine ⟨move_keeps_coupled hm h.coupled, ?_⟩
  rcases move_channel hm h.coupled with hc | ⟨c, hc, hu⟩
  · rw [hc]
    exact h.channel
  · rw [hu]
    exact Handoff.step_keeps_invariant hc h.channel

theorem reachable_sound {s : State} (h : Reachable s) : Sound s := by
  obtain ⟨number, mode, o, h⟩ := h
  induction h with
  | refl => exact ⟨initial_coupled number mode o, Handoff.initial_invariant⟩
  | tail _ hs ih =>
    obtain ⟨he, now, rfl⟩ := hs
    exact move_keeps_sound (move_of_enabled he) ih

/-- What holds of new loggers and is kept by the moves of sound ones holds of all loggers. -/
theorem reachable_keeps {I : State → Prop} (new : ∀ number mode o, I (initial number mode o))
    (move : ∀ {now s e u}, Move now s e u → Sound s → I s → I u) {s : State}
    (h : Reachable s) : I s := by
  obtain ⟨number, mode, o, h⟩ := h
  induction h with
  | refl => exact new number mode o
  | tail hx hs ih =>
    obtain ⟨he, now, rfl⟩ := hs
    exact move (move_of_enabled he) (reachable_sound ⟨number, mode, o, hx⟩) ih

theorem Reachable.run {s : State} (hr : Reachable s) {es : List (Stamp × Event)}
    (h : machine.Valid s es) : Reachable (machine.after s es) := by
  obtain ⟨number, mode, o, hx⟩ := hr
  refine ⟨number, mode, o, ?_⟩
  induction es, h using Machine.run_induction with
  | nil => exact hx
  | snoc es e hes he ih =>
    rw [Machine.after_append]
    exact .tail ih ⟨he, e.1, rfl⟩

theorem initial_reachable (number : Nat) (mode : Mode) (o : Options) :
    Reachable (initial number mode o) :=
  ⟨number, mode, o, .refl _⟩

theorem reachable_of_valid {number : Nat} {mode : Mode} {o : Options} {es : List (Stamp × Event)}
    (h : machine.Valid (initial number mode o) es) :
    Reachable (machine.after (initial number mode o) es) :=
  (initial_reachable number mode o).run h

end LeveledLog.Logger
