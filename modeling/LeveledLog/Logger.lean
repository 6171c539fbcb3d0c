import LeveledLog.Handoff
import LeveledLog.Logger.Plan

/-!
A logger with its worker, as a transition system. Callers decide, compose and hand off; the worker
takes what was handed off, writes lines and releases barriers. Whether a write or a flush succeeds
comes with the worker's event, and so does every choice of who goes on. While the worker is busy
at the destination or has a diagnostic handled, code that runs there may call the logger itself;
such calls hand nothing off. A line that the destination cannot be given ends the worker, and so
does a fault that nothing handles. Waiting has no time limit here.
-/

namespace LeveledLog

inductive Thread where
  | caller (n : Nat)
  | worker (number : Nat)
  deriving DecidableEq, Repr

inductive Parcel where
  | line (text : List CodePoint)
  | barrier (id : Nat)
  deriving DecidableEq, Repr

inductive Outcome where
  | returned (v : Value)
  | raised (f : Fault)
  /-- The program has ended with this status, after the flush of these streams. -/
  | exited (status : Nat) (flushed : List String)
  deriving Repr

inductive Progress where
  | idle
  /-- About to read the threshold. -/
  | deciding (i : Invocation) (level : Level)
  /-- About to render the message, read the options and the clock, and make the plan. -/
  | composing (i : Invocation)
  | handing (tasks : List Task) (ending : Ending) (looks : Nat)
  /-- Handing off; after a barrier it is waited for. -/
  | sending (wait : Option Nat) (tasks : List Task) (ending : Ending) (looks : Nat)
  | awaiting (barrier : Nat) (tasks : List Task) (ending : Ending) (looks : Nat)
  | flushing (streams : List Stream) (flushed : List String) (looks : Nat)
  | done (outcome : Outcome) (looks : Nat)
  deriving Repr

inductive Diagnostic where
  | started
  | failed (line : List CodePoint) (fault : Fault)
  deriving Repr

inductive WorkerPhase where
  | reporting (d : Diagnostic)
  | receiving
  | writing (line : List CodePoint)
  | flushing (line : List CodePoint)
  /-- The worker has ended, before it wrote this line if it is that which ended it. -/
  | ended (lost : Option (List CodePoint))
  deriving Repr

namespace Logger

structure State where
  number : Nat
  mode : Mode
  options : Options
  channel : Handoff.State Thread Parcel
  callers : Thread → Progress
  worker : WorkerPhase
  barriers : Nat
  released : List Nat
  /-- The lines that writes were attempted with, oldest first. -/
  attempts : List (List CodePoint)
  /-- How many of these attempts have ended, one way or the other. -/
  finished : Nat
  diagnostics : List Diagnostic
  /-- How the calls have ended that came from the worker itself, oldest first. -/
  ownOutcomes : List Outcome

def initial (number : Nat) (mode : Mode) (o : Options) : State :=
  { number
    mode
    options := o
    channel := Handoff.initial
    callers := fun _ => .idle
    worker := .reporting .started
    barriers := 0
    released := []
    attempts := []
    finished := 0
    diagnostics := [.started]
    ownOutcomes := [] }

inductive Event where
  | start (t : Thread) (i : Invocation)
  | caller (t : Thread)
  /-- The worker goes on; a write or a flush ends with this outcome. -/
  | worker (outcome : Option Fault)
  /-- A thread takes the outcome of its call and goes on with the program. -/
  | collect (t : Thread)
  /-- The worker itself calls the logger. -/
  | ownCall (i : Invocation)
  deriving Repr

def IsIdle : Progress → Prop
  | .idle => True
  | _ => False

instance (p : Progress) : Decidable (IsIdle p) := by
  cases p <;> simp only [IsIdle] <;> infer_instance

def IsDone : Progress → Prop
  | .done _ _ => True
  | _ => False

instance (p : Progress) : Decidable (IsDone p) := by
  cases p <;> simp only [IsDone] <;> infer_instance

def State.own (s : State) : Thread := .worker s.number

def CallerCanStep (s : State) (t : Thread) : Progress → Prop
  | .idle => False
  | .deciding _ _ => True
  | .composing _ => True
  | .handing _ _ _ => True
  | .sending _ _ _ _ => Handoff.Enabled s.channel (.step t)
  | .awaiting b _ _ _ => b ∈ s.released
  | .flushing _ _ _ => True
  | .done _ _ => False

instance (s : State) (t : Thread) (p : Progress) : Decidable (CallerCanStep s t p) := by
  cases p <;> simp only [CallerCanStep] <;> infer_instance

def WorkerCanStep (s : State) : WorkerPhase → Prop
  | .receiving =>
    match s.channel.phase s.own with
    | .received _ => True
    | _ => Handoff.Enabled s.channel (.step s.own)
  | .ended _ => False
  | _ => True

instance (s : State) (w : WorkerPhase) : Decidable (WorkerCanStep s w) := by
  cases w <;> simp only [WorkerCanStep] <;> (try infer_instance)
  split <;> infer_instance

/-- Whether code of the destination or of a handler runs on the worker. -/
def Busy : WorkerPhase → Prop
  | .receiving => False
  | .ended _ => False
  | _ => True

instance (w : WorkerPhase) : Decidable (Busy w) := by
  cases w <;> simp only [Busy] <;> infer_instance

def Enabled (s : State) : Event → Prop
  | .start t _ => t ≠ s.own ∧ IsIdle (s.callers t)
  | .caller t => CallerCanStep s t (s.callers t)
  | .collect t => IsDone (s.callers t)
  | .worker _ => WorkerCanStep s s.worker
  | .ownCall _ => Busy s.worker

instance (s : State) (e : Event) : Decidable (Enabled s e) := by
  cases e <;> simp only [Enabled] <;> infer_instance

def State.set (s : State) (t : Thread) (p : Progress) : State :=
  { s with callers := update s.callers t p }

section

variable (s : State) (t : Thread) (p : Progress)

@[simp] theorem set_mode : (s.set t p).mode = s.mode := rfl
@[simp] theorem set_options : (s.set t p).options = s.options := rfl
@[simp] theorem set_channel : (s.set t p).channel = s.channel := rfl
@[simp] theorem set_callers : (s.set t p).callers = update s.callers t p := rfl
@[simp] theorem set_worker : (s.set t p).worker = s.worker := rfl
@[simp] theorem set_barriers : (s.set t p).barriers = s.barriers := rfl
@[simp] theorem set_released : (s.set t p).released = s.released := rfl
@[simp] theorem set_attempts : (s.set t p).attempts = s.attempts := rfl
@[simp] theorem set_finished : (s.set t p).finished = s.finished := rfl
@[simp] theorem set_own : (s.set t p).own = s.own := rfl

end

def begin (i : Invocation) : Progress :=
  match i.call with
  | .leveled l _ _ => .deciding i l
  | _ => .composing i

def finish (ending : Ending) (looks : Nat) : Progress :=
  match ending with
  | .value v => .done (.returned v) looks
  | .fault f => .done (.raised f) looks
  | .exit streams => .flushing streams [] looks

def exitStatus : Nat := 1

def isSuppressed : FaultKind → Bool
  | .missingAttribute => true
  | .system => true
  | .wrongValue => true
  | _ => false

def flushNext (streams : List Stream) (flushed : List String) (looks : Nat) : Progress :=
  match streams with
  | [] => .done (.exited exitStatus flushed) looks
  | st :: rest =>
    match st.state with
    | .absent => .flushing rest flushed looks
    | .working => .flushing rest (flushed ++ [st.name]) looks
    | .failing k =>
      if isSuppressed k then .flushing rest (flushed ++ [st.name]) looks
      else .done (.raised (.scripted k)) looks

def compose (s : State) (now : Stamp) (t : Thread) (i : Invocation) : State :=
  match (Plan.make s.options now i).run.run 0 with
  | (.ok (o, p), looks) => { s with options := o }.set t (.handing p.tasks p.ending looks)
  | (.error f, looks) => s.set t (.done (.raised f) looks)

def handNext (s : State) (t : Thread) (tasks : List Task) (ending : Ending) (looks : Nat) : State :=
  match tasks with
  | [] => s.set t (finish ending looks)
  | .line l :: rest =>
    { s with channel := Handoff.next s.channel (.send t (.line l)) }.set t
      (.sending none rest ending looks)
  | .barrier :: rest =>
    { s with
      channel := Handoff.next s.channel (.send t (.barrier s.barriers))
      barriers := s.barriers + 1 }.set t (.sending (some s.barriers) rest ending looks)

def sendOn (s : State) (t : Thread) (wait : Option Nat) (tasks : List Task) (ending : Ending)
    (looks : Nat) : State :=
  let s := { s with channel := Handoff.next s.channel (.step t) }
  if (s.channel.phase t).AtRest then
    match wait with
    | none => s.set t (.handing tasks ending looks)
    | some b => s.set t (.awaiting b tasks ending looks)
  else s

def callerStep (s : State) (now : Stamp) (t : Thread) : Progress → State
  | .deciding i l =>
    if s.options.loggable l.priority then s.set t (.composing i)
    else s.set t (.done (.returned .none) 0)
  | .composing i => compose s now t i
  | .handing tasks ending looks => handNext s t tasks ending looks
  | .sending wait tasks ending looks => sendOn s t wait tasks ending looks
  | .awaiting _ tasks ending looks => s.set t (.handing tasks ending looks)
  | .flushing streams flushed looks => s.set t (flushNext streams flushed looks)
  | _ => s

def receive (s : State) : State :=
  { s with worker := .receiving, channel := Handoff.next s.channel (.receive s.own) }

def report (s : State) (d : Diagnostic) : State :=
  { s with worker := .reporting d, diagnostics := s.diagnostics ++ [d] }

def giveUp (s : State) (lost : Option (List CodePoint)) : State := { s with worker := .ended lost }

/-- What follows a fault of the destination with a line. -/
def fail (s : State) (l : List CodePoint) (f : Fault) : State :=
  if f.isAbrupt then giveUp s none else report s (.failed l f)

def workerStep (s : State) (outcome : Option Fault) : WorkerPhase → State
  | .reporting _ => receive s
  | .receiving =>
    match s.channel.phase s.own with
    | .received (.barrier b) => receive { s with released := b :: s.released }
    | .received (.line l) =>
      if s.mode.takes l then { s with worker := .writing l, attempts := s.attempts ++ [l] }
      else giveUp s (some l)
    | _ => { s with channel := Handoff.next s.channel (.step s.own) }
  | .writing l =>
    let s := { s with finished := s.finished + 1 }
    match outcome with
    | none => { s with worker := .flushing l }
    | some f => fail s l f
  | .flushing l =>
    match outcome with
    | none => receive s
    | some f => fail s l f
  | .ended _ => s

def flushAll (flushed : List String) : List Stream → Outcome
  | [] => .exited exitStatus flushed
  | st :: rest =>
    match st.state with
    | .absent => flushAll flushed rest
    | .working => flushAll (flushed ++ [st.name]) rest
    | .failing k =>
      if isSuppressed k then flushAll (flushed ++ [st.name]) rest else .raised (.scripted k)

def ownCall (s : State) (now : Stamp) (i : Invocation) : State × Outcome × Nat :=
  let dropped := match i.call with
    | .leveled l _ _ => !s.options.loggable l.priority
    | _ => false
  if dropped then (s, .returned .none, 0)
  else
    match (Plan.make s.options now i).run.run 0 with
    | (.error f, looks) => (s, .raised f, looks)
    | (.ok (o, p), looks) =>
      let outcome : Outcome := match i.call, p.ending with
        | .sync, _ => .returned (.bool false)
        | _, .value v => .returned v
        | _, .fault f => .raised f
        | _, .exit streams => flushAll [] streams
      ({ s with options := o }, outcome, looks)

def next (now : Stamp) (s : State) : Event → State
  | .start t i => s.set t (begin i)
  | .caller t => callerStep s now t (s.callers t)
  | .collect t => s.set t .idle
  | .worker outcome => workerStep s outcome s.worker
  | .ownCall i =>
    let (s, outcome, _) := ownCall s now i
    { s with ownOutcomes := s.ownOutcomes ++ [outcome] }

def Step (s : State) (e : Event) (u : State) : Prop :=
  Enabled s e ∧ ∃ now, u = next now s e

inductive Execution : State → State → Prop where
  | refl (s) : Execution s s
  | tail {s t u e} : Execution s t → Step t e u → Execution s u

def Reachable (s : State) : Prop := ∃ number mode o, Execution (initial number mode o) s

end Logger

end LeveledLog
