import LeveledLog.Value.Equality
import LeveledLog.Value.Text

/-!
Values as integers, and values as sequences.
-/

namespace LeveledLog

def Fault.shownLimit : Nat := 200

def Fault.ofNumeral (shown : List Char) : Text.NumeralError → Fault
  | .malformed => .badNumeral (String.ofList (shown.take Fault.shownLimit))
  | .tooLong n => .numeralTooLong n

namespace Value

def readInteger (v : Value) (s : List Char) : Render Int :=
  match Text.readInteger s with
  | .ok n => pure n
  | .error .malformed => do
    let shown ← v.shown
    throw (Fault.ofNumeral shown .malformed)
  | .error e => throw (Fault.ofNumeral [] e)

def toInteger (v : Value) : Render Int :=
  match v with
  | float .nan => throw .nanToInteger
  | float (.infinite _) => throw .infinityToInteger
  | float (.finite s m e) => pure (Binary64.truncate s m e)
  | bytes bs => readInteger v (bs.map fun b => if b < 0x80 then Char.ofNat b.toNat else '?')
  | v =>
    match v.int?, v.text? with
    | some i, _ => pure i
    | .none, some s => readInteger v s.toList
    | .none, .none => throw .wrongType

def items? : Value → Option (List Value)
  | list xs => some xs
  | tuple xs => some xs
  | dict es => some (es.map (·.1))
  | view es => some (es.map (·.1))
  | bytes bs => some (bs.map fun b => int b.toNat)
  | flags f => some ((HeaderOption.all.filter f.has).map fun o => flags (Flags.single o))
  | v => v.text?.map fun s => s.toList.map fun c => text (String.singleton c)

/-- The text of a value with zeros in front, up to a width. Zero is a single digit when the width
leaves room for no more. -/
def padded (room : Room) (width : Int) (v : Value) : Render (List Char) :=
  if v.equals (.int 0) && width ≤ 1 then pure ['0']
  else do
    let s ← v.plain
    if Nat.pow 2 63 ≤ width then throw .integerTooLargeForWidth
    else do
      checkSize room width.toNat
      pure (Text.zeroFill width.toNat s)

end Value

end LeveledLog
