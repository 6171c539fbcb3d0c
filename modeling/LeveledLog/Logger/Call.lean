import LeveledLog.Backtrace
import LeveledLog.Error

/-!
Calls of a logger: the emitting calls, waiting for what was emitted, and assignments of the options.
A call is made from a place in a program, which is the call stack above it.
-/

namespace LeveledLog

inductive Level where
  | debug
  | info
  | warning
  | error
  | critical
  deriving DecidableEq, Repr

namespace Level

def priority : Level → Priority
  | debug => .debug
  | info => .info
  | warning => .warning
  | error => .error
  | critical => .critical

def method : Level → String
  | debug => "debug"
  | info => "info"
  | warning => "warn"
  | error => "error"
  | critical => "crit"

/-- How many frames beyond the one that puts a line out its call site is; zero asks for none. -/
def depth : Level → Nat
  | debug => 2
  | info => 0
  | warning => 0
  | error => 2
  | critical => 2

end Level

inductive Call where
  /-- A message at a level, which is dropped below the threshold. -/
  | leveled (level : Level) (format : Value) (args : List Value)
  /-- A message that is never dropped. -/
  | printf (format : Value) (args : List Value)
  | print (values : List Value)
  | output (depth priority message : Value)
  | backtrace (depth : Value)
  | sync
  | panic (format : Value) (args : List Value)
  | fatal (format : Value) (args : List Value)
  | setPriority (v : Value)
  | setFlags (v : Value)
  | setPrefix (v : Value)
  deriving Repr

inductive StreamState where
  | working
  | absent
  | failing (kind : FaultKind)
  deriving DecidableEq, Repr

structure Stream where
  name : String
  state : StreamState
  deriving DecidableEq, Repr

def standardStreams (output error : StreamState) : List Stream :=
  [⟨"stdout", output⟩, ⟨"stderr", error⟩]

/-- What a program runs on: the room there is for a text, and the sets of header options that have
been made besides those that are made at its start. -/
structure Host where
  room : Room
  made : List Nat
  deriving DecidableEq, Repr

def Host.usual : Host := ⟨.usual, []⟩

structure Invocation where
  call : Call
  stack : Stack
  streams : List Stream
  host : Host
  deriving Repr

namespace Call

def formatted? (a : Arguments) : Option (Value × List Value) :=
  match a.positional, a.named with
  | f :: args, [] => some (f, args)
  | [], [("fmt", f)] => some (f, [])
  | _, _ => none

def exactly? (parameters : List String) (a : Arguments) : Option (List (Option Value)) :=
  match a.bind? parameters with
  | some (bound, []) => some bound
  | _ => none

def levels : List (String × Level) :=
  [
    ("debug", .debug), ("info", .info), ("warn", .warning), ("warning", .warning),
    ("error", .error), ("err", .error), ("crit", .critical), ("critical", .critical)
  ]

def ofMethod (method : String) (a : Arguments) : Option Call :=
  match levels.lookup method with
  | some l => (formatted? a).map fun (f, args) => .leveled l f args
  | none =>
    match method with
    | "printf" => (formatted? a).map fun (f, args) => .printf f args
    | "print" => if a.named.isEmpty then some (.print a.positional) else none
    | "output" =>
      match exactly? ["call_depth", "prio", "message"] a with
      | some [some depth, some priority, some message] => some (.output depth priority message)
      | _ => none
    | "backtrace" =>
      match exactly? ["depth"] a with
      | some [depth] => some (.backtrace (depth.getD (.int 0)))
      | _ => none
    | "sync" => (exactly? ["timeout"] a).map fun _ => .sync
    | "panic" => (formatted? a).map fun (f, args) => .panic f args
    | "fatal" => (formatted? a).map fun (f, args) => .fatal f args
    | _ => none

def methods : List String :=
  levels.map (·.1) ++ ["printf", "print", "output", "backtrace", "sync", "panic", "fatal"]

def ofRequest (method : String) (a : Arguments) : Except Fault Call :=
  if !methods.contains method then .error .missingAttribute
  else
    match ofMethod method a with
    | some c => .ok c
    | none => .error .wrongType

end Call

end LeveledLog
