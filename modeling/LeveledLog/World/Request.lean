import LeveledLog.World.Construct

/-!
Requests: what the name of a method and its arguments ask of a logger. Most methods are calls that
the logger carries out; some only tell about it, and some make another logger.
-/

namespace LeveledLog

inductive Request where
  | perform (c : Call)
  | loggable (v : Value)
  | describe
  /-- Another logger, which gets no name. -/
  | make (source : Source) (wanted : Wanted)

namespace Request

def attributes : List String := ["prio", "flags", "prefix"]

def wantedOf (priority linePrefix flags : Option Value) : Wanted :=
  let a := Wanted.standard
  ⟨priority.getD a.priority, linePrefix.getD a.linePrefix, flags.getD a.flags⟩

def onFile? (a : Arguments) : Option Request :=
  match Call.exactly? ["path", "prio", "prefix", "flags"] a with
  | some [some path, p, x, f] => some (.make (.file path) (wantedOf p x f))
  | _ => none

def onSyslog? (a : Arguments) : Option Request :=
  let own : List String := ["address", "ident"]
  let address := (a.named.lookup "address").getD (.text Settings.defaultAddress)
  let ident := (a.named.lookup "ident").getD .none
  match Call.exactly? ["prio", "prefix", "flags"]
      { a with named := a.named.filter fun n => !own.contains n.1 } with
  | some [p, x, f] => some (.make (.syslog address ident) (wantedOf p x f))
  | _ => none

def describe? (a : Arguments) : Option Request := (Call.exactly? [] a).map fun _ => .describe

def loggable? (a : Arguments) : Option Request :=
  match Call.exactly? ["prio"] a with
  | some [some v] => some (.loggable v)
  | _ => none

def others : List (String × (Arguments → Option Request)) :=
  [
    ("loggable", loggable?), ("__repr__", describe?), ("__str__", describe?),
    ("from_file", onFile?), ("from_syslog", onSyslog?)
  ]

def ofMethod (method : String) (a : Arguments) : Except Fault Request :=
  match others.lookup method with
  | some read =>
    match read a with
    | some r => .ok r
    | none => .error .wrongType
  | none =>
    if attributes.contains method then .error .wrongType
    else (Call.ofRequest method a).map .perform

end Request

end LeveledLog
