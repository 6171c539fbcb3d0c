import LeveledLog.Proofs.Logger.Coupling

/-!
What the worker does with the parcels it takes. It deals with them one at a time and in order: each
line is written once, each barrier is released once, and a write begins only when all earlier ones
have ended. How a write ends makes no difference here.
-/

namespace LeveledLog

namespace Parcel

def line? : Parcel → Option (List CodePoint)
  | line l => some l
  | barrier _ => none

def barrier? : Parcel → Option Nat
  | line _ => none
  | barrier b => some b

end Parcel

namespace Logger

/-- The parcel that the worker has taken and not begun to deal with, or ended at. -/
def State.held (s : State) : List Parcel :=
  match s.worker with
  | .receiving => (s.channel.phase s.own).inHand
  | .ended (some l) => [.line l]
  | _ => []

/-- The parcels that the worker has dealt with, or is dealing with. -/
structure Delivered (s : State) (handled : List Parcel) : Prop where
  taken : s.channel.taken = handled ++ s.held
  lines : handled.filterMap Parcel.line? = s.attempts
  barriers : handled.filterMap Parcel.barrier? = s.released.reverse

theorem Delivered.mem_released {s : State} {handled : List Parcel} (h : Delivered s handled)
    {b : Nat} : b ∈ s.released ↔ .barrier b ∈ handled := by
  rw [← List.mem_reverse, ← h.barriers, List.mem_filterMap]
  constructor
  · rintro ⟨x, hx, hb⟩
    cases x with
    | line l => cases hb
    | barrier c => exact Option.some.inj hb ▸ hx
  · intro hb
    exact ⟨_, hb, rfl⟩

theorem held_of_busy {s : State} (h : Busy s.worker) : s.held = [] := by
  unfold State.held
  cases hw : s.worker with
  | receiving | ended => simp [hw, Busy] at h
  | _ => rfl

theorem held_of_received {s : State} {x : Parcel} (hw : s.worker = .receiving)
    (hx : s.channel.phase s.own = .received x) : s.held = [x] := by
  simp [State.held, Handoff.Phase.inHand, hw, hx]

theorem held_receive (s : State) : (receive s).held = [] := by
  have hp : (receive s).channel.phase (receive s).own = .approaching := Handoff.receive_phase
  unfold State.held
  rw [hp]
  rfl

theorem held_kept {s u : State} {t : Thread} (hworker : u.worker = s.worker)
    (hown : u.own = s.own) (ht : t ≠ s.own) (hothers : OthersKept t s.channel u.channel) :
    u.held = s.held := by
  unfold State.held
  rw [hworker, hown]
  rcases hothers s.own ht.symm with hph | hph <;> rw [hph]
  rw [Handoff.Phase.inHand_notify]

namespace Delivered

variable {s u : State} {handled : List Parcel}

theorem kept (h : Delivered s handled) (htaken : u.channel.taken = s.channel.taken)
    (hheld : u.held = s.held) (hattempts : u.attempts = s.attempts)
    (hreleased : u.released = s.released) : Delivered u handled := by
  refine ⟨?_, ?_, ?_⟩
  · rw [htaken, hheld]
    exact h.taken
  · rw [hattempts]
    exact h.lines
  · rw [hreleased]
    exact h.barriers

theorem of_caller {t : Thread} (h : Delivered s handled) (ht : t ≠ s.own)
    (htaken : u.channel.taken = s.channel.taken) (hworker : u.worker = s.worker)
    (hown : u.own = s.own) (hothers : OthersKept t s.channel u.channel)
    (hattempts : u.attempts = s.attempts) (hreleased : u.released = s.released) :
    Delivered u handled :=
  h.kept htaken (held_kept hworker hown ht hothers) hattempts hreleased

theorem receive (h : Delivered s handled) (hheld : s.held = []) :
    Delivered (receive s) handled :=
  h.kept rfl ((held_receive s).trans hheld.symm) rfl rfl

theorem same (h : Delivered s handled) : ∃ rest, Delivered s (handled ++ rest) :=
  ⟨[], by rwa [List.append_nil]⟩

end Delivered

theorem initial_delivered (number : Nat) (mode : Mode) (o : Options) :
    Delivered (initial number mode o) [] :=
  ⟨rfl, rfl, rfl⟩

theorem take_keeps_delivered {s : State} {handled : List Parcel} (h : Delivered s handled)
    (receiving : s.worker = .receiving) (ready : Handoff.Enabled s.channel (.step s.own)) :
    Delivered { s with channel := Handoff.next s.channel (.step s.own) } handled := by
  refine ⟨?_, h.lines, h.barriers⟩
  have hheld : s.held = [] := by
    simp only [State.held, receiving]
    cases hp : s.channel.phase s.own
    case received => simp [Handoff.Enabled, Handoff.CanStep, hp] at ready
    all_goals rfl
  have hold := h.taken
  rw [hheld, List.append_nil] at hold
  have htaken := Handoff.move_taken (Handoff.move_of_enabled ready)
  rw [hold] at htaken
  refine htaken.trans (congrArg (handled ++ ·) ?_)
  simp only [State.held, Handoff.Event.receipt, receiving, List.map_map]
  exact List.map_id _

theorem move_keeps_delivered {now : Stamp} {s u : State} {e : Event} (hm : Move now s e u)
    (hs : Sound s) {handled : List Parcel} (h : Delivered s handled) :
    ∃ rest, Delivered u (handled ++ rest) := by
  cases hm with
  | handLine handing | handBarrier handing =>
    have ht := hs.coupled.ne_own handing (by simp)
    exact Delivered.same (h.of_caller ht rfl rfl rfl
      (others_kept (hs.coupled.hand_enabled handing _)) rfl rfl)
  | send sending ready | sentLine sending ready | sentBarrier sending ready =>
    have ht := hs.coupled.ne_own sending (by simp)
    have htaken := Handoff.move_sends_taken (Handoff.move_of_enabled ready)
      (hs.coupled.sends sending)
    exact Delivered.same (h.of_caller ht htaken rfl rfl (others_kept ready) rfl rfl)
  | take receiving ready => exact Delivered.same (take_keeps_delivered h receiving ready)
  | @release b outcome receiving received =>
    have htaken := h.taken
    rw [held_of_received receiving received] at htaken
    refine ⟨[.barrier b], ?_, ?_, ?_⟩
    · rw [held_receive, List.append_nil]
      exact htaken
    · rw [List.filterMap_append, h.lines]
      exact List.append_nil _
    · rw [List.filterMap_append, h.barriers]
      exact (List.reverse_cons).symm
  | lose receiving received =>
    exact Delivered.same (h.kept rfl (held_of_received receiving received).symm rfl rfl)
  | @write l outcome receiving received =>
    have htaken := h.taken
    rw [held_of_received receiving received] at htaken
    refine ⟨[.line l], ?_, ?_, ?_⟩
    · exact htaken.trans (List.append_nil _).symm
    · rw [List.filterMap_append, h.lines]
      rfl
    · rw [List.filterMap_append, h.barriers]
      exact List.append_nil _
  | reported reporting =>
    exact Delivered.same (h.receive (held_of_busy (by simp [reporting, Busy])))
  | flushed flushing => exact Delivered.same (h.receive (held_of_busy (by simp [flushing, Busy])))
  | written writing | writeFailed writing =>
    have hheld := held_of_busy (s := s) (by simp [writing, Busy])
    exact Delivered.same
      (h.kept rfl ((held_of_busy (by simp [Busy, report])).trans hheld.symm) rfl rfl)
  | writeEnded ended | flushEnded ended =>
    exact Delivered.same (h.kept rfl (held_of_busy (by simp [ended, Busy])).symm rfl rfl)
  | flushFailed flushing =>
    have hheld := held_of_busy (s := s) (by simp [flushing, Busy])
    exact Delivered.same
      (h.kept rfl ((held_of_busy (by simp [Busy, report])).trans hheld.symm) rfl rfl)
  | _ => exact Delivered.same (h.kept rfl rfl rfl rfl)

theorem reachable_delivered {s : State} (h : Reachable s) : ∃ handled, Delivered s handled := by
  refine reachable_keeps (I := fun s => ∃ handled, Delivered s handled) ?_ ?_ h
  · intro number mode o
    exact ⟨[], initial_delivered number mode o⟩
  · rintro now s e u hm hs ⟨handled, hd⟩
    obtain ⟨rest, hu⟩ := move_keeps_delivered hm hs hd
    exact ⟨handled ++ rest, hu⟩

def State.writes (s : State) : Nat :=
  match s.worker with
  | .writing _ => 1
  | _ => 0

theorem attempts_finished {s : State} (h : Reachable s) :
    s.attempts.length = s.finished + s.writes := by
  refine reachable_keeps (I := fun s => s.attempts.length = s.finished + s.writes) ?_ ?_ h
  · intro number mode o
    rfl
  · intro now s e u hm _ hs
    cases hm with
    | write receiving => simpa [State.writes, receiving] using hs
    | written writing | writeFailed writing | writeEnded writing =>
      simpa [State.writes, writing, report, giveUp] using hs
    | reported w | release w | lose w | flushed w | flushFailed w | flushEnded w =>
      simpa [State.writes, w, receive, report, giveUp] using hs
    | _ => exact hs

end Logger

end LeveledLog
