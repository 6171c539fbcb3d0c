import LeveledLog.Value.Equality
import LeveledLog.Value.Text

/-!
Priorities from dynamic values: a value equal to a rank, or a configuration name.
-/

namespace LeveledLog.Priority

def ofValue (v : Value) : Render Priority :=
  match v with
  | .priority p => pure p
  | v =>
    match all.find? fun p => v.equals (.int p.rank) with
    | some p => pure p
    | .none => do
      let shown ← v.shown
      throw (.notMember (String.ofList shown) "Priority")

def unknownName (name : Value) : Render Fault := do
  let text ← name.plain
  let message := "Invalid log priority: " ++ String.ofList text
  match name with
  | .none => pure (.badSetting "priority" message .none)
  | name => do
    let shown ← name.plain
    pure (.badSetting "priority" message (some (String.ofList shown)))

def ofName (name : Value) : Render Priority :=
  if !name.hashable then throw .wrongType
  else
    match name.text?.bind ofConfigName? with
    | some p => pure p
    | .none => do
      let fault ← unknownName name
      throw fault

end LeveledLog.Priority
