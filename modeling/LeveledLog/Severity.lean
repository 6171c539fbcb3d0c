/-!
How bad an error is.
-/

namespace LeveledLog

inductive Severity where
  | critical
  | error
  | warning
  | fatal
  deriving DecidableEq, Repr

namespace Severity

def all : List Severity := [critical, error, warning, fatal]

def name : Severity → String
  | critical => "CRITICAL"
  | error => "ERROR"
  | warning => "WARNING"
  | fatal => "FATAL"

def word : Severity → String
  | critical => "critical"
  | error => "error"
  | warning => "warning"
  | fatal => "fatal"

def ofWord? (word : String) : Option Severity := all.find? fun s => s.word == word

def label (s : Severity) : String := "ErrorSeverity." ++ s.name

def describe (s : Severity) : String := "<" ++ s.label ++ ": '" ++ s.word ++ "'>"

end Severity

end LeveledLog
