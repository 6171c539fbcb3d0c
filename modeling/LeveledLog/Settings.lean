import LeveledLog.Error
import LeveledLog.Flags.OfValue
import LeveledLog.Priority.OfValue
import LeveledLog.Text.LooseNumeral
import LeveledLog.Text.Utf8

/-!
Settings of a logger: given by name, or found in the environment, or left at their defaults. Every
field is validated on its own, and all invalid fields are reported together.
-/

namespace LeveledLog

structure Settings where
  /-- The system log, a path, or nothing for standard error. -/
  destination : Option String
  priority : Priority
  linePrefix : String
  flags : Flags
  syslogAddress : String
  syslogIdent : Option String
  deriving DecidableEq, Repr

namespace Settings

def defaultAddress : String := "/dev/log"

/-- What is wrong with a field's value: the kind of the problem and its wording. Problems are
reported together; a fault ends the check of all fields. -/
abbrev Problem := String × String

def faultProblem (f : Fault) : Problem := ("value_error", "Value error, " ++ f.text)

structure Source where
  given : List (String × Value)
  environment : List (String × String)

/-- What settings need of the library of settings that they are built on: the value that a source
has for each field, the problem that a fault of a check is, and the checks of what is to be a text
or the rank of a priority. -/
structure Library where
  values : Source → Except Fault (String → Option Value)
  /-- There is none for a fault that ends the check of all fields. -/
  problem? : Fault → Option Problem
  text : Value → Except Problem String
  rank : Value → Render (Except Problem Priority)

section

variable (lib : Library)

/-- Accepts the outcome of a rendering. A fault may be a problem; if not, it stays one. -/
def ofRender {α : Type} (r : Render α) : Render (Except Problem α) :=
  tryCatch (Except.ok <$> r) fun f =>
    match lib.problem? f with
    | some p => pure (.error p)
    | none => throw f

def checkText (v : Value) : Render (Except Problem String) := pure (lib.text v)

def checkOptionalText (v : Value) : Render (Except Problem (Option String)) :=
  match v with
  | .none => pure (.ok none)
  | v => pure ((lib.text v).map some)

def checkPriority (v : Value) : Render (Except Problem Priority) :=
  match v.text? with
  | none => lib.rank v
  | some s =>
    let body := Text.strip s.toList
    let name := String.ofList body
    if Text.isDigits name then do
      match ← ofRender lib (Value.readInteger (.text name) body) with
      | .ok n => lib.rank (.int n)
      | .error e => pure (.error e)
    else if name = Priority.none.name then pure (.ok .none)
    else ofRender lib (Priority.ofName (.text name))

def checkFlags (v : Value) : Render (Except Problem Flags) :=
  if v.int?.isSome || v.text?.isSome then ofRender lib (Flags.parse v)
  else
    pure (.error
      ("value_error", "Value error, Format flags must be an int or a string, got " ++ v.typeName))

end

def field {α : Type} (value : Option Value) (name : String) (default : α)
    (check : Value → Render (Except Problem α)) : Render (Except FieldProblem α) :=
  match value with
  | none => pure (.ok default)
  | some v => do
    match ← check v with
    | .ok a => pure (.ok a)
    | .error (kind, message) => pure (.error ⟨name, kind, message⟩)

def problemOf {α : Type} : Except FieldProblem α → List FieldProblem
  | .ok _ => []
  | .error p => [p]

def load (lib : Library) (s : Source) : Render Settings := do
  let value ← ofExcept (lib.values s)
  let destination ← field (value "destination") "destination" none (checkOptionalText lib)
  let priority ← field (value "priority") "priority" Priority.none (checkPriority lib)
  let linePrefix ← field (value "prefix") "prefix" "" (checkText lib)
  let flags ← field (value "flags") "flags" Flags.standard (checkFlags lib)
  let address ← field (value "syslog_address") "syslog_address" defaultAddress (checkText lib)
  let ident ← field (value "syslog_ident") "syslog_ident" none (checkOptionalText lib)
  match destination, priority, linePrefix, flags, address, ident with
  | .ok destination, .ok priority, .ok linePrefix, .ok flags, .ok address, .ok ident =>
    pure ⟨destination, priority, linePrefix, flags, address, ident⟩
  | _, _, _, _, _, _ =>
    throw (.invalidSettings (problemOf destination ++ problemOf priority ++
      problemOf linePrefix ++ problemOf flags ++ problemOf address ++ problemOf ident))

/-! ### The library of settings -/

def notRank : Problem := ("enum", "Input should be 0, 1, 2, 3, 4, 5 or 6")

def tooLarge : Problem :=
  ("int_parsing_size", "Unable to parse input string as an integer, exceeded maximum size")

def notText : Problem := ("string_type", "Input should be a valid string")

def notUtf8 : Problem :=
  ("string_unicode",
    "Input should be a valid string, unable to parse raw data as a unicode string")

def textOf (v : Value) : Except Problem String :=
  match v with
  | .bytes bs =>
    match Text.decode? bs with
    | some s => .ok (String.ofList s)
    | none => .error notUtf8
  | .priority p => .ok (String.ofList (Text.natural 10 p.rank))
  | .flags f => .ok (String.ofList (Text.natural 10 f.bits))
  | v =>
    match v.text? with
    | some s => .ok s
    | none => .error notText

/-- Whether an integer is not out of all proportion: it fits into 64 bits. -/
def fits (n : Int) : Bool := -Nat.pow 2 63 ≤ n && n < Nat.pow 2 63

def exactInteger? : Value → Option Int
  | .float x => x.integral?.filter fits
  | .bytes bs => (Text.decode? bs).bind Text.Loose.integer?
  | v => v.int?

/-- A value that equals a rank is a priority, though it is no integer. -/
def checkMember (v : Value) : Render (Except Problem Priority) :=
  tryCatch (Except.ok <$> Priority.ofValue v) fun f =>
    if f.isWrongValue then pure (.error notRank) else throw f

def checkRank (v : Value) : Render (Except Problem Priority) :=
  match exactInteger? v with
  | none => checkMember v
  | some n =>
    if fits n then
      match Priority.ofRank? n with
      | some p => pure (.ok p)
      | none => checkMember v
    else pure (.error tooLarge)

structure Lookup where
  variablePrefix : String
  /-- Whether names have to match letter by letter; if not, case does not matter. -/
  exactCase : Bool
  skipsEmpty : Bool
  /-- The word that stands for no value. -/
  absentWord : Option String
  deriving DecidableEq, Repr

namespace Lookup

def standard : Lookup := ⟨"LVLOG_", false, false, none⟩

def given? (given : List (String × Value)) (name : String) : Option Value :=
  match given.lookup name with
  | some .none => none
  | v => v

def prefixOf : Option Value → Except Fault String
  | none => .ok standard.variablePrefix
  | some v =>
    match v.text? with
    | some s => .ok s
    | none => .error (if v.items?.isSome then .badVariablePrefix else .wrongType)

def ofGiven (given : List (String × Value)) : Except Fault Lookup := do
  let variablePrefix ← prefixOf (given? given "_env_prefix")
  let holds (name : String) : Bool := ((given? given name).map (·.truth)).getD false
  pure ⟨variablePrefix, holds "_case_sensitive", holds "_env_ignore_empty",
    (given? given "_env_parse_none_str").bind (·.text?)⟩

def isVariable (l : Lookup) (field name : String) : Bool :=
  if l.exactCase then name == l.variablePrefix ++ field
  else Text.lowerAscii name == Text.lowerAscii (l.variablePrefix ++ field)

/-- The value of a field's variable; of several variables the last one counts. -/
def value? (l : Lookup) (environment : List (String × String)) (field : String) : Option Value :=
  let set := environment.filter fun e => !(l.skipsEmpty && e.2.isEmpty)
  (set.reverse.find? fun e => l.isVariable field e.1).map fun e =>
    if l.absentWord = some e.2 then .none else .text e.2

end Lookup

def Source.value? (s : Source) (l : Lookup) (field : String) : Option Value :=
  (s.given.lookup field).or (l.value? s.environment field)

def Library.standard : Library where
  values s := (Lookup.ofGiven s.given).map s.value?
  problem? f := if f.isWrongValue then some (faultProblem f) else none
  text := textOf
  rank := checkRank

end Settings

def setVariable (name value : String) : List (String × String) → List (String × String)
  | [] => [(name, value)]
  | (n, v) :: rest => if n = name then (n, value) :: rest else (n, v) :: setVariable name value rest

end LeveledLog
