import LeveledLog.World.Request

/-!
Sessions: what a program does with its loggers, one action after another, and what each action
answers. After an action everybody goes on until nobody can, so the answer to the next action does
not depend on time.
-/

namespace LeveledLog

structure Inspection where
  options : Options
  linePrefix : Value.Display
  shown : String
  deriving Repr

namespace Logger

def describe (s : State) : Render String := do
  match s.options.flags.describe? with
  | some flags =>
    pure ("Logger(prio=" ++ s.options.threshold.name ++ ", flags=" ++ flags ++ ", worker=" ++
      World.workerName s.number ++ ")")
  | none => throw .numberTooLong

def inspection (s : State) : Render Inspection := do
  let linePrefix ← s.options.linePrefix.display
  let shown ← describe s
  pure ⟨s.options, linePrefix, shown⟩

end Logger

inductive Action where
  | make (name : String) (source : Source) (wanted : Wanted)
  | call (name method : String) (args : Arguments) (stack : Stack) (streams : List Stream)
  | inspect (name : String)
  | assign (name : String) (call : Call)
  | loggable (name : String) (v : Value)
  | setClock (t : Stamp)
  | viewFile (path : String)
  | forward (name : String)
  | spawn (name outlet : String) (id : Int) (method : String) (args : Arguments)
  | permit (outlet : String) (n : Nat)
  /-- Threads that each log messages, numbered, and with some padding. -/
  | concurrent (name outlet : String) (threads count padding : Nat)

inductive Answer where
  | noLogger
  | value (v : Value.Display)
  | fault (f : Fault)
  | exited (flushed : List String)
  | inspection (i : Inspection)
  | file (f : File)
  | noFile (e : SystemError)
  | crew (returned blocked : List Int) (entered : Nat)
  /-- The lines that an outlet got, and whether each thread's lines are in order. -/
  | lines (written : List String) (inOrder : Bool)
  deriving Repr

namespace World

def index? (w : World) (name : String) : Option Nat := w.names.lookup name

def answer {α : Type} (w : World) (r : Render α) (f : α → Answer) : World × Answer :=
  match w.render r with
  | (w, .ok a) => (w, f a)
  | (w, .error fault) => (w, .fault fault)

def inspect (w : World) (m : Nat) : World × Answer :=
  match w.members[m]? with
  | none => (w, .noLogger)
  | some x => w.answer (Logger.inspection x.state) .inspection

def describe (w : World) (m : Nat) (f : String → Value.Display) : World × Answer :=
  match w.members[m]? with
  | none => (w, .noLogger)
  | some x => w.answer (Logger.describe x.state) fun s => .value (f s)

def done : Answer := .value (.asIs .none)

def make (w : World) (name : String) (source : Source) (a : Wanted) : World × Answer :=
  match w.construct source a with
  | (w, .error f) => (w.settled, .fault f)
  | (w, .ok m) =>
    (settled { w with names := (name, m) :: w.names }).inspect m

def answerOf : Option Outcome → Answer
  | none => done
  | some (.returned v) => .value (.asIs v)
  | some (.raised f) => .fault f
  | some (.exited _ flushed) => .exited flushed

def callMain (w : World) (m : Nat) (i : Invocation) : World × Option Outcome :=
  ((w.begin m mainThread i).settled).collect m mainThread

def loggable (w : World) (m : Nat) (v : Value) : World × Answer :=
  match w.members[m]? with
  | none => (w, .noLogger)
  | some x => w.answer (x.state.options.passes v) fun b => .value (.asIs (.bool b))

def request (w : World) (m : Nat) (stack : Stack) (streams : List Stream) :
    Request → World × Answer
  | .perform c =>
    let (w, outcome) := w.callMain m ⟨c, stack, streams, w.host⟩
    (w, answerOf outcome)
  | .loggable v => w.loggable m v
  | .describe => w.describe m fun s => .asIs (.text s)
  | .make source wanted =>
    match w.construct source wanted with
    | (w, .error f) => (w.settled, .fault f)
    | (w, .ok m) => w.settled.describe m fun s => .shown s.toList

def call (w : World) (m : Nat) (method : String) (args : Arguments) (stack : Stack)
    (streams : List Stream) : World × Answer :=
  match Request.ofMethod method args with
  | .error f => (w, .fault f)
  | .ok r => w.request m stack streams r

def assign (w : World) (m : Nat) (c : Call) : World × Answer :=
  match w.callMain m (w.bare c) with
  | (w, some (.raised f)) => (w, .fault f)
  | (w, _) => w.inspect m

def entered (w : World) (name : String) : Nat :=
  let inside := w.members.filter fun x =>
    match x.destination, x.state.worker with
    | .outlet n, .writing _ => n == name
    | _, _ => false
  ((w.outlet? name).map (·.ended)).getD 0 + inside.length

def hasReturned (w : World) (s : Spawned) : Bool :=
  match s.thread with
  | some t => (w.outcomeOf? s.member t).isSome
  | none => true

def idsOf (calls : List Spawned) : List Int :=
  (calls.map (·.id)).mergeSort fun a b => decide (a ≤ b)

def crew (w : World) (outlet : String) : Answer :=
  .crew (idsOf (w.spawned.filter w.hasReturned))
    (idsOf (w.spawned.filter fun s => !w.hasReturned s)) (w.entered outlet)

def spawn (w : World) (m : Nat) (outlet : String) (id : Int) (r : Except Fault Request) :
    World × Answer :=
  let w :=
    match r with
    | .ok (.perform c) =>
      let t : Thread := .caller (w.spawned.length + 1)
      settled { w.begin m t (w.bare c) with spawned := w.spawned ++ [⟨id, m, some t⟩] }
    | .ok r => let w := (w.request m [] [] r).1; { w with spawned := w.spawned ++ [⟨id, m, none⟩] }
    | .error _ => { w with spawned := w.spawned ++ [⟨id, m, none⟩] }
  (w, w.crew outlet)

def permit (w : World) (outlet : String) (n : Nat) : World × Answer :=
  let w := match w.outlet? outlet with
    | some o => (w.setOutlet { o with permits := o.permits + n }).settled
    | none => w
  (w, w.crew outlet)

def threadCall (t n padding : Nat) : Call :=
  .leveled .info (.text "t%d n%d %s")
    [.int t, .int n, .text (String.ofList (List.replicate padding 'x'))]

def lineText? : OutletEvent → Option String
  | .bytes bs => some (String.ofList (Text.displayUtf8 bs))
  | _ => none

def threadLines (w : World) (m : Nat) (o : Outlet) (t count padding : Nat) : List String :=
  match w.members[m]? with
  | none => []
  | some x =>
    (List.range count).filterMap fun n =>
      match (Plan.make x.state.options w.clock (w.bare (threadCall t n padding))).outcome with
      | .ok (_, ⟨[.line l], _⟩) => lineText? (o.written l)
      | _ => none

def crewThread (w : World) (t : Nat) : Thread := .caller (w.spawned.length + 1 + t)

def round (w : World) (m threads : Nat) (call : Nat → Call) : World :=
  let begun :=
    (List.range threads).foldl (fun w t => w.begin m (w.crewThread t) (w.bare (call t))) w
  (List.range threads).foldl (fun w t => (w.collect m (w.crewThread t)).1) begun.settled

def concurrent (w : World) (m : Nat) (outlet : String) (threads count padding : Nat) :
    World × Answer :=
  let before := ((w.outlet? outlet).map (·.events)).getD []
  let after :=
    (List.range count).foldl (fun w n => w.round m threads fun t => threadCall t n padding) w
  match after.outlet? outlet with
  | none => (after, .lines [] true)
  | some o =>
    let written := (o.events.drop before.length).filterMap lineText?
    let ordered (t : Nat) : Bool :=
      let expected := w.threadLines m o t count padding
      written.filter (expected.contains ·) == expected.filter (written.contains ·)
    (after.setOutlet { o with events := before }, .lines written ((List.range threads).all ordered))

def viewFile (w : World) (path : String) : Answer :=
  match pathBytes (.text path) with
  | .error f => .fault f
  | .ok path =>
    match w.files.read path with
    | .ok f => .file f
    | .error e => .noFile e

def perform (w : World) (a : Action) : World × Answer :=
  let withLogger (name : String) (f : Nat → World × Answer) : World × Answer :=
    match w.index? name with
    | none => (w, .noLogger)
    | some m => f m
  match a with
  | .make name source wanted => w.make name source wanted
  | .call name method args stack streams =>
    withLogger name fun m => w.call m method args stack streams
  | .inspect name => withLogger name fun m => w.inspect m
  | .assign name c => withLogger name fun m => w.assign m c
  | .loggable name v => withLogger name fun m => w.loggable m v
  | .setClock t => ({ w with clock := t }, done)
  | .viewFile path => (w, w.viewFile path)
  | .forward name => withLogger name fun m => ({ w with target := some m }, done)
  | .spawn name outlet id method args =>
    withLogger name fun m => w.spawn m outlet id (Request.ofMethod method args)
  | .permit outlet n => w.permit outlet n
  | .concurrent name outlet threads count padding =>
    withLogger name fun m => w.concurrent m outlet threads count padding

def cleared (w : World) : World :=
  { w with
    notices := []
    looks := 0
    network := { w.network with events := [] }
    outlets := w.outlets.map fun o => { o with events := [] } }

end World

end LeveledLog
