import LeveledLog.Logger
import LeveledLog.Proofs.Run
import Mathlib.Tactic.SplitIfs

/-!
The moves of a logger: every enabled event, with what it finds and the state it leaves. Later
invariants follow these cases, and none of them opens a step again.
-/

namespace LeveledLog.Logger

def machine : Machine State (Stamp × Event) :=
  ⟨fun s e => Enabled s e.2, fun s e => next e.1 s e.2⟩

instance (s : State) (e : Stamp × Event) : Decidable (machine.Enabled s e) :=
  inferInstanceAs (Decidable (Enabled s e.2))

theorem isIdle_iff {p : Progress} : IsIdle p ↔ p = .idle := by
  cases p <;> simp [IsIdle]

theorem isDone_iff {p : Progress} : IsDone p ↔ ∃ outcome looks, p = .done outcome looks := by
  cases p <;> simp [IsDone]

inductive Move (now : Stamp) (s : State) : Event → State → Prop where
  | start {t i} (other : t ≠ s.own) (idle : s.callers t = .idle) :
      Move now s (.start t i) (s.set t (begin i))
  | collect {t outcome looks} (done : s.callers t = .done outcome looks) :
      Move now s (.collect t) (s.set t .idle)
  | drop {t i l} (deciding : s.callers t = .deciding i l)
      (low : s.options.loggable l.priority = false) :
      Move now s (.caller t) (s.set t (.done (.returned .none) 0))
  | pass {t i l} (deciding : s.callers t = .deciding i l)
      (high : s.options.loggable l.priority = true) :
      Move now s (.caller t) (s.set t (.composing i))
  | compose {t i o p looks} (composing : s.callers t = .composing i)
      (made : (Plan.make s.options now i).run.run 0 = (.ok (o, p), looks)) :
      Move now s (.caller t) ({ s with options := o }.set t (.handing p.tasks p.ending looks))
  | refuse {t i f looks} (composing : s.callers t = .composing i)
      (failed : (Plan.make s.options now i).run.run 0 = (.error f, looks)) :
      Move now s (.caller t) (s.set t (.done (.raised f) looks))
  | finish {t ending looks} (handing : s.callers t = .handing [] ending looks) :
      Move now s (.caller t) (s.set t (finish ending looks))
  | handLine {t l rest ending looks}
      (handing : s.callers t = .handing (.line l :: rest) ending looks) :
      Move now s (.caller t)
        ({ s with channel := Handoff.next s.channel (.send t (.line l)) }.set t
          (.sending none rest ending looks))
  | handBarrier {t rest ending looks}
      (handing : s.callers t = .handing (.barrier :: rest) ending looks) :
      Move now s (.caller t)
        ({ s with
          channel := Handoff.next s.channel (.send t (.barrier s.barriers))
          barriers := s.barriers + 1 }.set t (.sending (some s.barriers) rest ending looks))
  | send {t w tasks ending looks} (sending : s.callers t = .sending w tasks ending looks)
      (ready : Handoff.Enabled s.channel (.step t))
      (busy : ¬((Handoff.next s.channel (.step t)).phase t).AtRest) :
      Move now s (.caller t) { s with channel := Handoff.next s.channel (.step t) }
  | sentLine {t tasks ending looks} (sending : s.callers t = .sending none tasks ending looks)
      (ready : Handoff.Enabled s.channel (.step t))
      (rest : ((Handoff.next s.channel (.step t)).phase t).AtRest) :
      Move now s (.caller t)
        ({ s with channel := Handoff.next s.channel (.step t) }.set t
          (.handing tasks ending looks))
  | sentBarrier {t b tasks ending looks}
      (sending : s.callers t = .sending (some b) tasks ending looks)
      (ready : Handoff.Enabled s.channel (.step t))
      (rest : ((Handoff.next s.channel (.step t)).phase t).AtRest) :
      Move now s (.caller t)
        ({ s with channel := Handoff.next s.channel (.step t) }.set t
          (.awaiting b tasks ending looks))
  | cross {t b tasks ending looks} (awaiting : s.callers t = .awaiting b tasks ending looks)
      (reached : b ∈ s.released) :
      Move now s (.caller t) (s.set t (.handing tasks ending looks))
  | flushStream {t streams flushed looks}
      (flushing : s.callers t = .flushing streams flushed looks) :
      Move now s (.caller t) (s.set t (flushNext streams flushed looks))
  | reported {d outcome} (reporting : s.worker = .reporting d) :
      Move now s (.worker outcome) (receive s)
  | take {outcome} (receiving : s.worker = .receiving)
      (ready : Handoff.Enabled s.channel (.step s.own)) :
      Move now s (.worker outcome) { s with channel := Handoff.next s.channel (.step s.own) }
  | release {b outcome} (receiving : s.worker = .receiving)
      (received : s.channel.phase s.own = .received (.barrier b)) :
      Move now s (.worker outcome) (receive { s with released := b :: s.released })
  | write {l outcome} (receiving : s.worker = .receiving)
      (received : s.channel.phase s.own = .received (.line l)) (takes : s.mode.takes l = true) :
      Move now s (.worker outcome) { s with worker := .writing l, attempts := s.attempts ++ [l] }
  | lose {l outcome} (receiving : s.worker = .receiving)
      (received : s.channel.phase s.own = .received (.line l)) (refused : s.mode.takes l = false) :
      Move now s (.worker outcome) (giveUp s (some l))
  | written {l} (writing : s.worker = .writing l) :
      Move now s (.worker none) { s with finished := s.finished + 1, worker := .flushing l }
  | writeFailed {l f} (writing : s.worker = .writing l) (handled : f.isAbrupt = false) :
      Move now s (.worker (some f)) (report { s with finished := s.finished + 1 } (.failed l f))
  | writeEnded {l f} (writing : s.worker = .writing l) (abrupt : f.isAbrupt = true) :
      Move now s (.worker (some f)) (giveUp { s with finished := s.finished + 1 } none)
  | flushed {l} (flushing : s.worker = .flushing l) : Move now s (.worker none) (receive s)
  | flushFailed {l f} (flushing : s.worker = .flushing l) (handled : f.isAbrupt = false) :
      Move now s (.worker (some f)) (report s (.failed l f))
  | flushEnded {l f} (flushing : s.worker = .flushing l) (abrupt : f.isAbrupt = true) :
      Move now s (.worker (some f)) (giveUp s none)
  | ownCall {i o outcomes} (busy : Busy s.worker) :
      Move now s (.ownCall i) { s with options := o, ownOutcomes := outcomes }

private theorem caller_move {now : Stamp} {s : State} {t : Thread}
    (h : CallerCanStep s t (s.callers t)) :
    Move now s (.caller t) (callerStep s now t (s.callers t)) := by
  cases hp : s.callers t <;> rw [hp] at h
  case deciding i l =>
    simp only [callerStep]
    split
    · exact .pass hp ‹_›
    · rename_i low
      exact .drop hp (by simpa using low)
  case composing i =>
    simp only [callerStep, compose]
    split
    · exact .compose hp ‹_›
    · exact .refuse hp ‹_›
  case handing tasks ending looks =>
    match tasks with
    | [] => exact .finish hp
    | .line l :: rest => exact .handLine hp
    | .barrier :: rest => exact .handBarrier hp
  case sending w tasks ending looks =>
    simp only [callerStep, sendOn]
    split
    · cases w with
      | none => exact .sentLine hp h ‹_›
      | some b => exact .sentBarrier hp h ‹_›
    · exact .send hp h ‹_›
  case awaiting => exact .cross hp h
  case flushing => exact .flushStream hp
  all_goals exact h.elim

private theorem worker_move {now : Stamp} {s : State} {outcome : Option Fault}
    (h : WorkerCanStep s s.worker) :
    Move now s (.worker outcome) (workerStep s outcome s.worker) := by
  cases hw : s.worker with
  | reporting d => exact .reported hw
  | receiving =>
    rw [hw] at h
    simp only [workerStep]
    split
    · exact .release hw ‹_›
    · rename_i l hl
      by_cases takes : s.mode.takes l = true
      · rw [if_pos takes]
        exact .write hw hl takes
      · rw [if_neg takes]
        exact .lose hw hl (eq_false_of_ne_true takes)
    · rename_i hb hl
      refine .take hw ?_
      simp only [WorkerCanStep] at h
      split at h
      · rename_i x hx
        cases x with
        | line l => exact absurd hx (hl l)
        | barrier b => exact absurd hx (hb b)
      · exact h
  | writing l =>
    cases outcome with
    | none => exact .written hw
    | some f =>
      simp only [workerStep, fail]
      split
      · exact .writeEnded hw ‹_›
      · exact .writeFailed hw (eq_false_of_ne_true ‹_›)
  | flushing l =>
    cases outcome with
    | none => exact .flushed hw
    | some f =>
      simp only [workerStep, fail]
      split
      · exact .flushEnded hw ‹_›
      · exact .flushFailed hw (eq_false_of_ne_true ‹_›)
  | ended lost =>
    rw [hw] at h
    exact h.elim

private theorem own_call_move {now : Stamp} {s : State} {i : Invocation} (h : Busy s.worker) :
    Move now s (.ownCall i) (next now s (.ownCall i)) := by
  have hs : ∃ o, (ownCall s now i).1 = { s with options := o } := by
    unfold ownCall
    dsimp only
    split_ifs
    · exact ⟨s.options, rfl⟩
    · cases (Plan.make s.options now i).run.run 0 with
      | mk made looks =>
        cases made with
        | error f => exact ⟨s.options, rfl⟩
        | ok made => exact ⟨made.1, rfl⟩
  obtain ⟨o, ho⟩ := hs
  simp only [next, ho]
  exact .ownCall h

theorem move_of_enabled {now : Stamp} {s : State} {e : Event} (h : Enabled s e) :
    Move now s e (next now s e) := by
  cases e with
  | start t i => exact .start h.1 (isIdle_iff.mp h.2)
  | caller t => exact caller_move h
  | collect t =>
    obtain ⟨outcome, looks, hd⟩ := isDone_iff.mp h
    exact .collect hd
  | worker outcome => exact worker_move h
  | ownCall i => exact own_call_move h

theorem machine_move {s : State} {e : Stamp × Event} (h : machine.Enabled s e) :
    Move e.1 s e.2 (machine.next s e) :=
  move_of_enabled h

def Event.caller? : Event → Option Thread
  | .start t _ => some t
  | .caller t => some t
  | .collect t => some t
  | _ => none

/-- How far a thread gets with an event of its own, from one stage of a call to another. -/
inductive Advance (now : Stamp) (s : State) (t : Thread) : Event → Progress → Progress → Prop where
  | start {i} : Advance now s t (.start t i) .idle (begin i)
  | collect {outcome looks} : Advance now s t (.collect t) (.done outcome looks) .idle
  | drop {i l} (low : s.options.loggable l.priority = false) :
      Advance now s t (.caller t) (.deciding i l) (.done (.returned .none) 0)
  | pass {i l} (high : s.options.loggable l.priority = true) :
      Advance now s t (.caller t) (.deciding i l) (.composing i)
  | compose {i o p looks}
      (made : (Plan.make s.options now i).run.run 0 = (.ok (o, p), looks)) :
      Advance now s t (.caller t) (.composing i) (.handing p.tasks p.ending looks)
  | refuse {i f looks} (failed : (Plan.make s.options now i).run.run 0 = (.error f, looks)) :
      Advance now s t (.caller t) (.composing i) (.done (.raised f) looks)
  | finish {ending looks} :
      Advance now s t (.caller t) (.handing [] ending looks) (finish ending looks)
  | handLine {l rest ending looks} :
      Advance now s t (.caller t) (.handing (.line l :: rest) ending looks)
        (.sending none rest ending looks)
  | handBarrier {rest ending looks} :
      Advance now s t (.caller t) (.handing (.barrier :: rest) ending looks)
        (.sending (some s.barriers) rest ending looks)
  | send {w tasks ending looks} :
      Advance now s t (.caller t) (.sending w tasks ending looks) (.sending w tasks ending looks)
  | sentLine {tasks ending looks} :
      Advance now s t (.caller t) (.sending none tasks ending looks) (.handing tasks ending looks)
  | sentBarrier {b tasks ending looks} :
      Advance now s t (.caller t) (.sending (some b) tasks ending looks)
        (.awaiting b tasks ending looks)
  | cross {b tasks ending looks} (reached : b ∈ s.released) :
      Advance now s t (.caller t) (.awaiting b tasks ending looks) (.handing tasks ending looks)
  | flushStream {streams flushed looks} :
      Advance now s t (.caller t) (.flushing streams flushed looks)
        (flushNext streams flushed looks)

def atStep {α : Type} (t : Thread) (s : State) (e : Event) (note : Progress → List α) : List α :=
  match e with
  | .caller q => if q = t then note (s.callers q) else []
  | _ => []

section

variable {α : Type} {note : Progress → List α} {now : Stamp} {s u : State} {e : Event} {t : Thread}

theorem atStep_other (he : e.caller? ≠ some t) : atStep t s e note = [] := by
  cases e with
  | caller q =>
    have hq : q ≠ t := fun h => he (congrArg some h)
    exact if_neg hq
  | _ => rfl

theorem move_callers (hm : Move now s e u) (he : e.caller? ≠ some t) :
    u.callers t = s.callers t := by
  cases hm with
  | start | collect | drop | pass | compose | refuse | finish | handLine | handBarrier | sentLine
  | sentBarrier | cross | flushStream =>
    refine update_other _ _ ?_
    rintro rfl
    exact he rfl
  | _ => rfl

theorem move_advance (hm : Move now s e u) (he : e.caller? = some t) :
    Advance now s t e (s.callers t) (u.callers t) := by
  cases hm with
  | reported | take | release | write | lose | written | writeFailed | writeEnded | flushed
  | flushFailed | flushEnded | ownCall =>
    cases he
  | send w =>
    obtain rfl := Option.some.inj he
    rw [w]
    exact .send
  | start other w | drop w | pass w | compose w | refuse w | finish w | handLine w | handBarrier w
  | sentLine w | sentBarrier w | cross w | flushStream w | collect w =>
    obtain rfl := Option.some.inj he
    rw [set_callers, update_same, w]
    constructor <;> assumption

end

end LeveledLog.Logger
