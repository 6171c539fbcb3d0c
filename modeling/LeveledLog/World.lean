import LeveledLog.Files
import LeveledLog.Logger
import LeveledLog.Syslog
import LeveledLog.World.Outlet

/-!
A program with its loggers, and all they depend on: the clock, the files, the network, outlets, and
the environment. A line that a worker writes goes to the destination of its logger; what the
library reports about itself goes to a list of notices.
-/

namespace LeveledLog

inductive Destination where
  | outlet (name : String)
  | file (w : Writer)
  | syslog (w : SyslogWriter)
  deriving Repr

/-- A logger of the program. Its worker's number is one more than its index. -/
structure Member where
  state : Logger.State
  destination : Destination

inductive NoticeLevel where
  | debug
  | info
  | warning
  | error
  | critical
  deriving DecidableEq, Repr

def NoticeLevel.rank : NoticeLevel → Nat
  | debug => 1
  | info => 2
  | warning => 3
  | error => 4
  | critical => 5

inductive Notice where
  | report (source : String) (level : NoticeLevel) (message : String) (cause : Option Fault)
  | forwarded (synced : Bool)
  deriving Repr

/-- A call that was begun beside the main thread: what the program calls it, the index of its
logger, and its thread. One that asks nothing of the worker has ended at once and has no thread. -/
structure Spawned where
  id : Int
  member : Nat
  thread : Option Thread
  deriving DecidableEq, Repr

structure World where
  clock : Stamp
  host : Host
  program : List String
  process : Nat
  environment : List (String × String)
  files : Files
  network : Network
  outlets : List Outlet
  members : List Member
  names : List (String × Nat)
  /-- Calls that have begun and may still go on: the index of the logger and the thread. -/
  active : List (Nat × Thread)
  spawned : List Spawned
  noticeLevel : NoticeLevel
  target : Option Nat
  notices : List Notice
  looks : Nat

namespace World

def outlet? (w : World) (name : String) : Option Outlet := w.outlets.find? (·.name == name)

def setOutlet (w : World) (o : Outlet) : World :=
  { w with outlets := w.outlets.map fun old => if old.name == o.name then o else old }

def setMember (w : World) (m : Nat) (x : Member) : World :=
  { w with members := w.members.set m x }

def event (w : World) (m : Nat) (e : Logger.Event) : World :=
  match w.members[m]? with
  | none => w
  | some x => w.setMember m { x with state := Logger.next w.clock x.state e }

def render {α : Type} (w : World) (r : Render α) : World × Except Fault α :=
  match r.run.run 0 with
  | (result, looks) => ({ w with looks := w.looks + looks }, result)

def showDestination (w : World) : Destination → World × List Char
  | .outlet name =>
    (w, match w.outlet? name with | some o => o.shown.toList | none => name.toList)
  | .file _ => (w, "<file>".toList)
  | .syslog s =>
    match w.render s.shown with
    | (w, .ok text) => (w, text)
    | (w, .error _) => (w, [])

def write (w : World) (m : Nat) (line : List CodePoint) : World × Option Fault :=
  match w.members[m]? with
  | none => (w, none)
  | some x =>
    match x.destination with
    | .outlet name =>
      match w.outlet? name with
      | none => (w, none)
      | some o => let (o, result) := o.write line; (w.setOutlet o, result)
    | .file f =>
      let (files, f) := w.files.write f (Text.encode line)
      ({ w with files }.setMember m { x with destination := .file f }, none)
    | .syslog s =>
      match w.render (s.write w.network w.clock (Text.encode line)) with
      | (w, .error f) => (w, some f)
      | (w, .ok (network, .error f)) => ({ w with network }, some f)
      | (w, .ok (network, .ok _)) => ({ w with network }, none)

def flush (w : World) (m : Nat) : World × Option Fault :=
  match w.members[m]? with
  | some { destination := .outlet name, .. } =>
    match w.outlet? name with
    | none => (w, none)
    | some o => let (o, result) := o.flushOnce; (w.setOutlet o, result)
  | _ => (w, none)

def writePasses (w : World) (x : Member) : Bool :=
  match x.destination with
  | .outlet name => ((w.outlet? name).map (·.passes)).getD true
  | _ => true

def workerName (number : Nat) : String := "lvlog-worker-" ++ toString number

def note (w : World) (n : Notice) : World := { w with notices := w.notices ++ [n] }

end World

end LeveledLog
