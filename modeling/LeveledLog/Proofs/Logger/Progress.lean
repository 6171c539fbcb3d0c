import LeveledLog.Proofs.Handoff.Progress
import LeveledLog.Proofs.Logger.Calls
import LeveledLog.Proofs.Logger.Loss

/-!
No call waits for a notification that has been missed, and none is stuck unless the worker is at
the destination or has ended. This is about which steps are enabled; that an enabled step is taken,
or that a write ever ends, is not claimed.
-/

namespace LeveledLog.Logger

def AtDestination : WorkerPhase → Prop
  | .writing _ => True
  | .flushing _ => True
  | _ => False

instance : (w : WorkerPhase) → Decidable (AtDestination w)
  | .writing _ | .flushing _ => instDecidableTrue
  | .receiving | .reporting _ | .ended _ => instDecidableFalse

/-- A caller, or the worker outside of the destination, has an enabled step. -/
def Moves (s : State) : Prop :=
  (∃ t, Enabled s (.caller t)) ∨ (¬AtDestination s.worker ∧ Enabled s (.worker none))

section

variable {s : State} {t : Thread}

theorem moves_of_channel (h : Coupled s) (away : ¬AtDestination s.worker)
    (alive : ¬Ended s.worker) (hm : Handoff.Moves s.channel) : Moves s := by
  obtain ⟨p, hp⟩ := hm
  by_cases hown : p = s.own
  · subst p
    refine .inr ⟨away, ?_⟩
    change WorkerCanStep s s.worker
    cases hw : s.worker with
    | receiving =>
      simp only [WorkerCanStep]
      split
      · trivial
      · exact hp
    | ended lost =>
      rw [hw] at alive
      exact absurd trivial alive
    | _ => trivial
  · left
    refine ⟨p, ?_⟩
    have hf := h.callers p hown
    change CallerCanStep s p (s.callers p)
    cases hc : s.callers p <;> rw [hc] at hf
    case sending => exact hp
    all_goals
      change s.channel.phase p = .idle at hf
      rw [Handoff.Enabled, hf] at hp
      exact hp.elim

theorem worker_moves (h : Sound s) (away : ¬AtDestination s.worker) (alive : ¬Ended s.worker) :
    Moves s ∨ (s.channel.slot = none ∧ s.held = []) := by
  by_cases hb : Busy s.worker
  · refine .inl (.inr ⟨away, ?_⟩)
    change WorkerCanStep s s.worker
    cases hw : s.worker with
    | receiving | ended => simp [hw, Busy] at hb
    | _ => trivial
  · have hw : s.worker = .receiving := by
      cases hw : s.worker <;> simp_all [Busy, Ended]
    have hf := h.coupled.worker
    rw [hw] at hf
    rcases hf with hr | ⟨x, hx⟩
    · rcases Handoff.receiver_moves h.channel.exclusive h.channel.alert hr with hm | empty
      · exact .inl (moves_of_channel h.coupled away alive hm)
      · refine .inr ⟨empty, ?_⟩
        simp only [State.held, hw]
        cases hph : s.channel.phase s.own <;> rw [hph] at hr <;> first | rfl | exact hr.elim
    · refine .inl (.inr ⟨away, ?_⟩)
      change WorkerCanStep s s.worker
      simp [hw, WorkerCanStep, hx]

theorem awaited_deposited (h : Sound s) (hn : Numbered s) {b : Nat} {tasks : List Task}
    {ending : Ending} {looks : Nat} (awaiting : s.callers t = .awaiting b tasks ending looks) :
    .barrier b ∈ s.channel.deposited.map Prod.snd := by
  obtain ⟨before, hb, _⟩ := hn.waiting t b (by simp [Progress.barrier?, awaiting])
  have hidle : s.channel.phase t = .idle := h.coupled.fits awaiting (by simp)
  have hmem : .barrier b ∈ s.channel.deposits t := by
    have ho : s.channel.offered t = s.channel.deposits t ++ [] := by
      rw [Handoff.State.offered, hidle]
      rfl
    rw [List.append_nil, hb] at ho
    rw [← ho]
    simp
  obtain ⟨d, hd, hsnd⟩ := List.mem_map.mp hmem
  exact List.mem_map.mpr ⟨d, (List.mem_filter.mp hd).1, hsnd⟩

/-- A barrier goes through the hand-off like a line, so whoever waits for it goes on, or somebody
else does. -/
theorem awaiting_moves (h : Sound s) (away : ¬AtDestination s.worker) (alive : ¬Ended s.worker)
    (hn : Numbered s) {handled : List Parcel} (hd : Delivered s handled) {b : Nat}
    {tasks : List Task} {ending : Ending} {looks : Nat}
    (awaiting : s.callers t = .awaiting b tasks ending looks) : Moves s := by
  rcases worker_moves h away alive with hm | ⟨empty, hheld⟩
  · exact hm
  · -- Nothing is in the slot or with the worker, so all that was put in has been handled.
    have htaken : .barrier b ∈ s.channel.taken := by
      rw [Handoff.taken_of_empty h.channel.conserved empty]
      exact awaited_deposited h hn awaiting
    rw [hd.taken, hheld, List.append_nil] at htaken
    have hreleased : b ∈ s.released := hd.mem_released.mpr htaken
    left
    refine ⟨t, ?_⟩
    change CallerCanStep s t (s.callers t)
    rw [awaiting]
    exact hreleased

theorem sending_moves (h : Sound s) (away : ¬AtDestination s.worker) (alive : ¬Ended s.worker)
    {w : Option Nat} {tasks : List Task} {ending : Ending} {looks : Nat}
    (sending : s.callers t = .sending w tasks ending looks) : Moves s := by
  have hsends := h.coupled.sends sending
  rcases Handoff.sender_moves h.channel.exclusive h.channel.alert hsends with hm | full
  · exact moves_of_channel h.coupled away alive hm
  · rcases worker_moves h away alive with hm | ⟨empty, _⟩
    · exact hm
    · exact absurd empty full

end

structure Live (s : State) : Prop where
  receivers : s.channel.slot ≠ none → ∀ t, s.channel.phase t ≠ .dozing
  sender : s.channel.slot = none → ∀ t, s.channel.turn = some t → s.channel.phase t ≠ .asleep
  calls : ∀ t, ¬IsIdle (s.callers t) → ¬IsDone (s.callers t) →
    AtDestination s.worker ∨ Ended s.worker ∨ Moves s
  /-- A line that ends the worker is one that the destination cannot be given. -/
  lost : ∀ l, s.worker = .ended (some l) → s.mode.takes l = false

theorem no_lost_wake_up {s : State} (h : Reachable s) : Live s := by
  have hs := reachable_sound h
  refine ⟨?_, ?_, ?_, fun l => reachable_lost h⟩
  · intro full t hp
    exact full (hs.channel.alert.dozing t hp)
  · intro empty t _ hp
    exact hs.channel.alert.asleep t hp empty
  · intro t hidle hdone
    by_cases away : AtDestination s.worker
    · exact .inl away
    by_cases alive : Ended s.worker
    · exact .inr (.inl alive)
    · right; right
      cases hc : s.callers t <;> rw [hc] at hidle hdone
      case idle => exact absurd trivial hidle
      case done => exact absurd trivial hdone
      case sending => exact sending_moves hs away alive hc
      case awaiting =>
        obtain ⟨handled, hd⟩ := reachable_delivered h
        exact awaiting_moves hs away alive (reachable_numbered h) hd hc
      all_goals
        refine .inl ⟨t, ?_⟩
        change CallerCanStep s t (s.callers t)
        rw [hc]
        trivial

/-- A thread that hands off a barrier to a worker which fell asleep before it came. -/
def sleepers : List (Stamp × Event) :=
  let waits : Event := .start (.caller 0) ⟨.sync, [], [], .usual⟩
  let events : List Event :=
    [.worker none, .worker none, .worker none, waits] ++ List.replicate 6 (.caller (.caller 0))
  events.map (⟨2024, 5, 6, 7, 8, 9, 1234⟩, ·)

theorem no_lost_wake_up_of_sleepers :
    let s := machine.after (initial 1 .bytes ⟨.none, .empty, .none⟩) sleepers
    s.channel.slot = some (.barrier 0) ∧ s.channel.phase (.caller 0) = .asleep ∧
      s.channel.phase s.own = .roused ∧ ¬IsIdle (s.callers (.caller 0)) ∧ Live s :=
  ⟨by decide, by decide, by decide, by decide, no_lost_wake_up (reachable_of_valid (by decide))⟩

/-- Once the worker has ended, a call can be left that nobody ever answers. -/
theorem muted_stuck :
    let s := machine.after (initial 1 .bytes unfiltered) muted
    Reachable s ∧ ¬IsIdle (s.callers (.caller 0)) ∧ ¬IsDone (s.callers (.caller 0)) ∧
      ¬AtDestination s.worker ∧ ¬Moves s := by
  refine ⟨reachable_of_valid muted_valid, by decide +kernel, by decide +kernel, by decide +kernel,
    ?_⟩
  rintro (⟨t, ht⟩ | ⟨_, hw⟩)
  · by_cases h0 : t = .caller 0
    · subst t
      revert ht
      decide +kernel
    · have idle : (machine.after (initial 1 .bytes unfiltered) muted).callers t = .idle := by
        refine run_idle muted_valid ?_
        intro e he hc
        have hall : ∀ e ∈ muted, e.2.caller? ∈ [none, some (.caller 0)] := by decide +kernel
        have hmem := hall e he
        simp [hc, h0] at hmem
      change CallerCanStep _ t _ at ht
      rw [idle] at ht
      exact ht
  · revert hw
    decide +kernel

end LeveledLog.Logger
