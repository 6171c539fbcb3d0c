import LeveledLog.Line
import LeveledLog.Value.Number

/-!
Lines of dynamic messages: the tag is whatever integer the priority stands for, the message has to
be text, and a message that does not hold has no line.
-/

namespace LeveledLog.Line

/-- The text of a tag, which the system log does without. -/
def tagOf (priority : Value) (f : Flags) : Render (List Char) :=
  if f.has .syslog then pure []
  else do
    let rank ← priority.toInteger
    Value.integerText rank

def ofValues (priority : Value) (f : Flags) (message : Value) (site : Option CallSite)
    (now : Stamp) : Render (List CodePoint) :=
  if !message.truth then pure []
  else do
    let tag ← tagOf priority f
    match message.text? with
    | some s => pure (assemble tag f (Text.points s.toList) site now)
    | none => throw .wrongType

end LeveledLog.Line
