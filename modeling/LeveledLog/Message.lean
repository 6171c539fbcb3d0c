import LeveledLog.Template.Render

/-!
Messages: a format and its arguments. A format that cannot be filled in with the arguments is
written in front of them instead, so that the event is not lost.
-/

namespace LeveledLog

/-- The operands of a format: the mapping, if it is the only argument and not empty, else all
arguments. -/
def operands (args : List Value) : Template.Operands :=
  match args with
  | [v] =>
    match v.entries? with
    | some (e :: es) => .mapping v (e :: es)
    | _ => .tuple [v]
  | args => .tuple args

/-- The faults that show a format and arguments which do not fit each other. -/
def FaultKind.isMismatch : FaultKind → Bool
  | .wrongType => true
  | .wrongValue => true
  | .missingKey => true
  | _ => false

def listed (format : Value) (args : List Value) : Render (List CodePoint) := do
  let f ← format.plain
  let a ← (Value.tuple args).shown
  pure (Text.points (f ++ ' ' :: a))

def message (room : Room) (format : Value) (args : List Value) : Render (List CodePoint) :=
  if args.isEmpty then Text.points <$> format.plain
  else
    tryCatch
      (do
        let template ← format.plain
        Template.fill room template (operands args))
      fun f => if f.kind.isMismatch then listed format args else throw f

end LeveledLog
