import LeveledLog.Fault.Kind
import LeveledLog.Flags
import LeveledLog.Number.Binary64
import LeveledLog.Priority
import LeveledLog.Severity

/-!
Dynamic values: what callers pass as messages, arguments, settings and error context. Among them
are probes, which count how often they are looked at and may refuse to be shown.
-/

namespace LeveledLog

/-- What a probe does when it is looked at: it shows a text, or fails with the fixed word `spy`. -/
structure Probe where
  text : String
  shown : String
  textFault : Option FaultKind
  shownFault : Option FaultKind
  deriving DecidableEq, Repr

structure ErrorCode where
  code : String
  category : String
  deriving DecidableEq, Repr

/-- A dynamic value. A `view` is a mapping that cannot be changed. -/
inductive Value where
  | none
  | bool (b : Bool)
  | int (i : Int)
  | float (x : Binary64)
  | text (s : String)
  | bytes (bs : List UInt8)
  | list (xs : List Value)
  | tuple (xs : List Value)
  | dict (entries : List (Value × Value))
  | view (entries : List (Value × Value))
  | priority (p : Priority)
  | flags (f : Flags)
  | probe (p : Probe)
  | category (name : String)
  | code (c : ErrorCode)
  | severity (s : Severity)
  deriving Repr

namespace Value

def int? : Value → Option Int
  | bool b => some (if b then 1 else 0)
  | int i => some i
  | priority p => some p.rank
  | flags f => some f.bits
  | _ => .none

def text? : Value → Option String
  | text s => some s
  | severity s => some s.word
  | _ => .none

def entries? : Value → Option (List (Value × Value))
  | dict es => some es
  | view es => some es
  | _ => .none

def truth : Value → Bool
  | none => false
  | bool b => b
  | int i => i != 0
  | float (.finite _ m _) => m != 0
  | float _ => true
  | text s => !s.isEmpty
  | bytes bs => !bs.isEmpty
  | list xs => !xs.isEmpty
  | tuple xs => !xs.isEmpty
  | dict es => !es.isEmpty
  | view es => !es.isEmpty
  | priority p => p.rank != 0
  | flags f => f.bits != 0
  | probe _ => true
  | category _ => true
  | code _ => true
  | severity _ => true

def typeName : Value → String
  | none => "NoneType"
  | bool _ => "bool"
  | int _ => "int"
  | float _ => "float"
  | text _ => "str"
  | bytes _ => "bytes"
  | list _ => "list"
  | tuple _ => "tuple"
  | dict _ => "dict"
  | view _ => "mappingproxy"
  | priority _ => "Priority"
  | flags _ => "FormatFlags"
  | probe _ => "Spy"
  | category _ => "ErrorCategory"
  | code _ => "ErrorCode"
  | severity _ => "ErrorSeverity"

/-- Compares a number with an integer. The outer `none` says that the value is no number, the
inner one that it is not comparable. -/
def compareInt? (v : Value) (i : Int) : Option (Option Ordering) :=
  match v with
  | float x => some (x.compareInt i)
  | v => v.int?.map fun n => some (compare n i)

end Value

end LeveledLog
