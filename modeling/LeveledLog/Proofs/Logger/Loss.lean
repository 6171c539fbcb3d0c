import LeveledLog.Proofs.Logger.Barriers

/-!
What is left of a logger whose worker has ended. Nothing is written any more and no barrier is
released, so a call that still has a barrier ahead of it never ends, whatever happens next. Callers
go on as far as they come without the worker.
-/

namespace LeveledLog.Logger

def Ended : WorkerPhase → Prop
  | .ended _ => True
  | _ => False

instance : (w : WorkerPhase) → Decidable (Ended w)
  | .ended _ => instDecidableTrue
  | .receiving | .writing _ | .flushing _ | .reporting _ => instDecidableFalse

def Event.isHandled : Event → Bool
  | .worker (some f) => !f.isAbrupt
  | _ => true

structure Deserted (s u : State) : Prop where
  worker : u.worker = s.worker
  attempts : u.attempts = s.attempts
  released : u.released = s.released
  diagnostics : u.diagnostics = s.diagnostics

/-- A barrier that a call has still to cross. -/
def Barred (released : List Nat) : Progress → Prop
  | .handing tasks _ _ => .barrier ∈ tasks
  | .sending (some b) tasks _ _ => b ∉ released ∨ .barrier ∈ tasks
  | .sending none tasks _ _ => .barrier ∈ tasks
  | .awaiting b tasks _ _ => b ∉ released ∨ .barrier ∈ tasks
  | _ => False

instance (released : List Nat) : (p : Progress) → Decidable (Barred released p)
  | .handing tasks _ _ | .sending none tasks _ _ => inferInstanceAs (Decidable (.barrier ∈ tasks))
  | .sending (some b) tasks _ _ | .awaiting b tasks _ _ =>
    inferInstanceAs (Decidable (b ∉ released ∨ .barrier ∈ tasks))
  | .idle | .deciding _ _ | .composing _ | .flushing _ _ _ | .done _ _ => instDecidableFalse

section

variable {now : Stamp} {s u : State} {e : Event} {t : Thread}

theorem move_ended_lost (hm : Move now s e u) (handled : e.isHandled = true)
    (h : s.worker ≠ .ended none) : u.worker ≠ .ended none := by
  cases hm with
  | writeEnded w abrupt | flushEnded w abrupt => simp [Event.isHandled, abrupt] at handled
  | reported | take | release | write | lose | written | writeFailed | flushed | flushFailed =>
    simp_all [receive, report, giveUp]
  | _ => exact h

theorem move_mode (hm : Move now s e u) : u.mode = s.mode := by
  cases hm <;> rfl

theorem move_deserted (hm : Move now s e u) (h : Ended s.worker) : Deserted s u := by
  cases hm with
  | reported w | take w | release w | write w | lose w | written w | writeFailed w | writeEnded w
  | flushed w | flushFailed w | flushEnded w =>
    rw [w] at h
    exact h.elim
  | _ => exact ⟨rfl, rfl, rfl, rfl⟩

theorem reachable_released_below (h : Reachable s) {b : Nat} (hb : b ∈ s.released) :
    b < s.barriers := by
  obtain ⟨handled, hd⟩ := reachable_delivered h
  have htaken : .barrier b ∈ s.channel.taken := by
    rw [hd.taken]
    exact List.mem_append_left _ (hd.mem_released.mp hb)
  have hdeposited : .barrier b ∈ s.channel.deposited.map Prod.snd := by
    rw [(reachable_sound h).channel.conserved.order]
    exact List.mem_append_left _ htaken
  obtain ⟨t, ht⟩ := Handoff.mem_offered_of_deposited hdeposited
  exact (reachable_numbered h).below t b ht

/-- Without a worker, a barrier ahead stays ahead. -/
theorem move_barred (hm : Move now s e u) (hr : Reachable s) (h : Ended s.worker)
    (hb : Barred s.released (s.callers t)) : Barred u.released (u.callers t) := by
  rw [(move_deserted hm h).released]
  by_cases he : e.caller? = some t
  · have ha := move_advance hm he
    generalize hp : s.callers t = p at ha hb
    generalize u.callers t = q at ha ⊢
    cases ha with
    | handLine => exact (List.mem_cons.mp hb).resolve_left (by simp)
    | handBarrier =>
      refine .inl fun hmem => ?_
      exact absurd (reachable_released_below hr hmem) (Nat.lt_irrefl _)
    | send | sentLine | sentBarrier => exact hb
    | cross reached => exact hb.resolve_left (absurd reached)
    | finish => cases hb
    | _ => exact hb.elim
  · rwa [move_callers hm he]

end

section

variable {s : State} {es : List (Stamp × Event)}

theorem run_deserted (h : machine.Valid s es) (hended : Ended s.worker) :
    Deserted s (machine.after s es) := by
  induction es, h using Machine.run_induction with
  | nil => exact ⟨rfl, rfl, rfl, rfl⟩
  | snoc es e hes he ih =>
    have hstep := move_deserted (machine_move he) (ih.worker ▸ hended)
    rw [Machine.after_append]
    exact ⟨hstep.worker.trans ih.worker, hstep.attempts.trans ih.attempts,
      hstep.released.trans ih.released, hstep.diagnostics.trans ih.diagnostics⟩

/-- Nobody crosses a barrier once the worker has ended. -/
theorem run_barred (hr : Reachable s) (h : machine.Valid s es) (hended : Ended s.worker)
    {t : Thread} (hb : Barred s.released (s.callers t)) :
    Barred (machine.after s es).released ((machine.after s es).callers t) := by
  induction es, h using Machine.run_induction with
  | nil => exact hb
  | snoc es e hes he ih =>
    have hmid := (run_deserted hes hended).worker ▸ hended
    rw [Machine.after_append]
    exact move_barred (machine_move he) (hr.run hes) hmid ih

theorem Barred.not_done {released : List Nat} {p : Progress} (h : Barred released p) :
    ¬IsDone p := by
  cases p with
  | done => exact h.elim
  | _ => exact id

theorem run_never_done (hr : Reachable s) (h : machine.Valid s es) (hended : Ended s.worker)
    {t : Thread} (hb : Barred s.released (s.callers t)) :
    ¬IsDone ((machine.after s es).callers t) :=
  (run_barred hr h hended hb).not_done

end

/-- The worker ends at a line only if the destination cannot be given it. -/
theorem reachable_lost {s : State} (h : Reachable s) {l : List CodePoint}
    (hw : s.worker = .ended (some l)) : s.mode.takes l = false := by
  refine reachable_keeps
    (I := fun s => ∀ l, s.worker = .ended (some l) → s.mode.takes l = false) ?_ ?_ h l hw
  · intro number mode o l hl
    cases hl
  · intro now s e u hm _ ih l hl
    rw [move_mode hm]
    cases hm with
    | lose receiving received refused =>
      obtain rfl := Option.some.inj (WorkerPhase.ended.inj hl)
      exact refused
    | reported | take | release | write | written | writeFailed | writeEnded | flushed
    | flushFailed | flushEnded =>
      simp_all [receive, report, giveUp]
    | _ => exact ih l hl

/-- What is passed to a write is what the destination can be given. -/
theorem reachable_given {s : State} (h : Reachable s) :
    ∀ l ∈ s.attempts, s.mode.takes l = true := by
  refine reachable_keeps (I := fun s => ∀ l ∈ s.attempts, s.mode.takes l = true) ?_ ?_ h
  · intro number mode o l hl
    cases hl
  · intro now s e u hm _ ih
    rw [move_mode hm]
    cases hm with
    | write receiving received takes =>
      intro l hl
      rcases List.mem_append.mp hl with hbefore | hlast
      · exact ih l hbefore
      · rw [List.mem_singleton.mp hlast]
        exact takes
    | _ => exact ih

section

variable {number : Nat} {mode : Mode} {o : Options} {es : List (Stamp × Event)}

theorem run_mode (h : machine.Valid (initial number mode o) es) :
    (machine.after (initial number mode o) es).mode = mode := by
  induction es, h using Machine.run_induction with
  | nil => rfl
  | snoc es e hes he ih =>
    rw [Machine.after_append]
    exact (move_mode (machine_move he)).trans ih

/-- With faults that are handled, the worker ends only at a line that the destination cannot be
given. -/
theorem run_ended_lost (h : machine.Valid (initial number mode o) es)
    (handled : ∀ e ∈ es, e.2.isHandled = true)
    (hended : Ended (machine.after (initial number mode o) es).worker) :
    ∃ l, (machine.after (initial number mode o) es).worker = .ended (some l) ∧
      mode.takes l = false := by
  have hlost : (machine.after (initial number mode o) es).worker ≠ .ended none := by
    clear hended
    induction es, h using Machine.run_induction with
    | nil => exact WorkerPhase.noConfusion
    | snoc es e hes he ih =>
      have hbefore := ih fun e' he' => handled e' (List.mem_append_left _ he')
      rw [Machine.after_append]
      exact move_ended_lost (machine_move he) (handled e (by simp)) hbefore
  cases hw : (machine.after (initial number mode o) es).worker with
  | ended lost =>
    cases lost with
    | none => exact absurd hw hlost
    | some l =>
      have hrefused := reachable_lost (reachable_of_valid h) hw
      rw [run_mode h] at hrefused
      exact ⟨l, rfl, hrefused⟩
  | _ =>
    rw [hw] at hended
    exact hended.elim

end

def unfiltered : Options := ⟨.none, .empty, .none⟩

/-- A call with a line that a destination of bytes cannot be given, and then one that waits. -/
def muted : List (Stamp × Event) :=
  let logs : Event :=
    .start (.caller 0) ⟨.leveled .info (.text "%c") [.int 0xd800], [], [], .usual⟩
  let waits : Event := .start (.caller 0) ⟨.sync, [], [], .usual⟩
  let step (k : Nat) : List Event := List.replicate k (.caller (.caller 0))
  let work (k : Nat) : List Event := List.replicate k (.worker none)
  let events : List Event :=
    work 3 ++ [logs] ++ step 7 ++ work 2 ++ step 4 ++ work 1 ++ [.collect (.caller 0), waits] ++
      step 6
  events.map (⟨2024, 5, 6, 7, 8, 9, 1234⟩, ·)

theorem muted_valid : machine.Valid (initial 1 .bytes unfiltered) muted := by decide +kernel

theorem muted_ended : Ended (machine.after (initial 1 .bytes unfiltered) muted).worker := by
  decide +kernel

theorem muted_barred :
    let s := machine.after (initial 1 .bytes unfiltered) muted
    Barred s.released (s.callers (.caller 0)) := by
  decide +kernel

end LeveledLog.Logger
