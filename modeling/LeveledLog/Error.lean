import LeveledLog.Value.Equality
import LeveledLog.Value.Number

/-!
Errors with a code, a severity and an ordered context. Each class of errors has a code of its own
and its own parameters, which end up in the context after everything else that is given.
-/

namespace LeveledLog

/-- The classes of errors. A custom error brings its own code. -/
inductive ErrorClass where
  | «open»
  | connect
  | panic
  | config
  | custom
  deriving DecidableEq, Repr

namespace ErrorClass

def ownCategory : String := "LVLOG"

def code? : ErrorClass → Option ErrorCode
  | «open» => some ⟨"LVLOG_OPEN_ERROR", ownCategory⟩
  | connect => some ⟨"LVLOG_CONNECT_ERROR", ownCategory⟩
  | panic => some ⟨"LVLOG_PANIC", ownCategory⟩
  | config => some ⟨"LVLOG_CONFIG_ERROR", ownCategory⟩
  | custom => none

def parameters : ErrorClass → List String × Nat
  | «open» => (["message", "path"], 1)
  | connect => (["message", "address"], 1)
  | panic => (["message"], 1)
  | config => (["message", "config_key", "config_value"], 1)
  | custom => (["message", "code", "severity", "context"], 2)

def isWrongValue (c : ErrorClass) : Bool := c == config

end ErrorClass

structure LogError where
  kind : ErrorClass
  message : Value
  code : ErrorCode
  severity : Value
  context : List (Value × Value)
  deriving Repr

structure Arguments where
  positional : List Value
  named : List (String × Value)

namespace Arguments

/-- Gives each parameter its argument, by position first. What is named otherwise is left over. It
fails when there are too many arguments, or two for one parameter. -/
def bind? (parameters : List String) (a : Arguments) :
    Option (List (Option Value) × List (String × Value)) :=
  let byPosition := parameters.take a.positional.length
  if parameters.length < a.positional.length then none
  else if byPosition.any fun p => (a.named.lookup p).isSome then none
  else
    let byName := (parameters.drop a.positional.length).map fun p => a.named.lookup p
    some (a.positional.map some ++ byName, a.named.filter fun n => !parameters.contains n.1)

end Arguments

namespace LogError

/-- A context entry from a value that stands for a pair, the one with this index. -/
def pair (item : Value) (index : Nat) : Render (Value × Value) :=
  match item.items? with
  | some [k, v] => if k.hashable then pure (k, v) else throw .wrongType
  | some parts => throw (.badPair index parts.length)
  | none => throw .wrongType

def initialContext (v : Value) : Render (List (Value × Value)) :=
  if !v.truth then pure []
  else
    match v.entries? with
    | some es => pure es
    | none =>
      match v.items? with
      | none => throw .wrongType
      | some items => do
        let pairs ← items.zipIdx.mapM fun (item, index) => pair item index
        pure (Value.mapping pairs)

/-- Sets keys of a context; a new key goes to the end. -/
def overlay (context : List (Value × Value)) (named : List (String × Value)) :
    List (Value × Value) :=
  named.foldl (fun es n => Value.insert (.text n.1) n.2 es) context

def textEntry (key : String) : Option Value → Render (List (String × Value))
  | none => pure []
  | some .none => pure []
  | some v => do
    let s ← v.plain
    pure [(key, .text (String.ofList s))]

def ownEntries (kind : ErrorClass) (own : List (Option Value)) : Render (List (String × Value)) :=
  match kind, own with
  | .open, [path] =>
    match path with
    | none => pure []
    | some .none => pure []
    | some v => pure [("path", v)]
  | .connect, [address] => textEntry "address" address
  | .config, [key, value] => do
    let shown ← textEntry "config_value" value
    match key with
    | some k => if k.truth then pure (("config_key", k) :: shown) else pure shown
    | none => pure shown
  | _, _ => pure []

/-- The severity and the initial context that may be given by name, and what else is named. -/
def general (named : List (String × Value)) :
    Option Value × Option Value × List (String × Value) :=
  (named.lookup "severity", named.lookup "context",
    named.filter fun n => n.1 != "severity" && n.1 != "context")

def reserved : List String := ["self", "cls"]

def makeOwn (kind : ErrorClass) (code : ErrorCode) (message : Value) (own : List (Option Value))
    (named : List (String × Value)) : Render LogError := do
  let entries ← ownEntries kind own
  let (severity, context, rest) := general named
  if (named.lookup "code").isSome then throw .wrongType
  else if kind = .panic ∧ severity.isSome then throw .wrongType
  else
    let first ← initialContext (context.getD .none)
    let severity :=
      if kind = .panic then .severity .fatal else severity.getD (.severity .error)
    pure ⟨kind, message, code, severity, overlay first (rest ++ entries)⟩

def makeCustom (message code : Value) (severity context : Option Value)
    (named : List (String × Value)) : Render LogError :=
  match code with
  | .code c => do
    let first ← initialContext (context.getD .none)
    pure ⟨.custom, message, c, severity.getD (.severity .error), overlay first named⟩
  | _ => throw .codeExpected

def abstractFault (arguments : Arguments) : Fault :=
  if (arguments.named.lookup "cls").isSome then .wrongType else .abstractError

def make (kind : ErrorClass) (arguments : Arguments) : Render LogError :=
  if reserved.any fun r => (arguments.named.lookup r).isSome then throw .wrongType
  else
    match arguments.bind? kind.parameters.1 with
    | none => throw .wrongType
    | some (bound, named) =>
      if (bound.take kind.parameters.2).any (·.isNone) then throw .wrongType
      else
        match kind.code?, bound with
        | some code, some message :: own => makeOwn kind code message own named
        | none, [some message, some code, severity, context] =>
          makeCustom message code severity context named
        | _, _ => throw .wrongType

def addContext (e : LogError) (key value : Value) : Render LogError :=
  if key.hashable then pure { e with context := Value.insert key value e.context }
  else throw .wrongType

def text (e : LogError) : Render (List Char) := do
  let m ← e.message.plain
  pure (e.code.code.toList ++ ':' :: ' ' :: m)

structure Report where
  code : String
  message : Value
  category : String
  severity : Value
  context : List (Value × Value)

def nameOf : Value → Render Value
  | .severity s => pure (.text s.name)
  | .priority p => pure (.text p.name)
  | .flags f => pure (match f.name? with | some n => .text n | none => .none)
  | .category n => pure (.text n)
  | _ => throw .missingAttribute

def report (e : LogError) : Render Report := do
  let severity ← nameOf e.severity
  pure ⟨e.code.code, e.message, e.code.category, severity, e.context⟩

end LogError

structure RaisedError where
  kind : ErrorClass
  message : List CodePoint
  code : ErrorCode
  severity : Severity
  context : List (Value × Value)
  deriving Repr

def RaisedError.text (e : RaisedError) : List CodePoint :=
  Text.points e.code.code.toList ++ .char ':' :: .char ' ' :: e.message

namespace Fault

def raised? (f : Fault) : Option RaisedError :=
  let own (kind : ErrorClass) (severity : Severity) (context : List (String × Value)) :
      Option RaisedError :=
    match kind.code?, f.wording? with
    | some code, some message =>
      some ⟨kind, message, code, severity, LogError.overlay [] context⟩
    | _, _ => none
  match f with
  | .cannotOpen path _ _ _ => own .open .error [("path", path)]
  | .cannotConnect address _ =>
    own .connect .error (address.toList.map fun a => ("address", .text a))
  | .panicked _ => own .panic .fatal []
  | .badSetting key _ shown =>
    own .config .error
      (("config_key", .text key) :: shown.toList.map fun s => ("config_value", .text s))
  | _ => none

def text (f : Fault) : String :=
  let message := f.message?.getD ""
  match f.raised? with
  | some e => e.code.code ++ ": " ++ message
  | none => message

end Fault

end LeveledLog
