/-!
Priorities form a chain from `none` to `emergency`. A logger has a least priority and drops what
is below it. A priority has a short name, a display label, and the names that configuration may
use for it.
-/

namespace LeveledLog

inductive Priority where
  | none
  | debug
  | info
  | warning
  | error
  | critical
  | emergency
  deriving DecidableEq, Repr

namespace Priority

def all : List Priority := [none, debug, info, warning, error, critical, emergency]

/-- The position in the chain, which is also the number written in a line's tag. -/
def rank : Priority → Nat
  | none => 0
  | debug => 1
  | info => 2
  | warning => 3
  | error => 4
  | critical => 5
  | emergency => 6

instance : LE Priority := ⟨fun p q => p.rank ≤ q.rank⟩

instance (p q : Priority) : Decidable (p ≤ q) := inferInstanceAs (Decidable (p.rank ≤ q.rank))

def ofRank? (n : Int) : Option Priority := all.find? fun p => (p.rank : Int) == n

def name : Priority → String
  | none => "NONE"
  | debug => "DEBUG"
  | info => "INFO"
  | warning => "WARNING"
  | error => "ERR"
  | critical => "CRIT"
  | emergency => "EMERG"

def label : Priority → String
  | none => ""
  | debug => "DEBUG"
  | info => "INFO"
  | warning => "WARNING"
  | error => "ERROR"
  | critical => "CRITICAL"
  | emergency => "EMERGENCY"

def configNames : List (String × Priority) :=
  [
    ("LOG_DEBUG", debug), ("LOG_INFO", info), ("LOG_WARNING", warning), ("LOG_WARN", warning),
    ("LOG_ERR", error), ("LOG_ERROR", error), ("LOG_CRIT", critical), ("LOG_EMERG", emergency),
    ("DEBUG", debug), ("INFO", info), ("WARNING", warning), ("WARN", warning), ("ERR", error),
    ("ERROR", error), ("CRIT", critical), ("CRITICAL", critical), ("EMERG", emergency),
    ("EMERGENCY", emergency)
  ]

def ofConfigName? (name : String) : Option Priority := configNames.lookup name

def describe (p : Priority) : String := "<Priority." ++ p.name ++ ": " ++ toString p.rank ++ ">"

end Priority

end LeveledLog
