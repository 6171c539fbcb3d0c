import LeveledLog.Flags.Reader
import LeveledLog.Value.Number

/-!
Header options from dynamic values: any integer is taken as a set of bits; a setting may also be
a text, and then only meaningful bits are accepted.
-/

namespace LeveledLog.Flags

/-- The sets that have been made by the time that a program can make others: each option, and
unions of them that the library itself makes. -/
def standing : List Nat := [1, 2, 4, 8, 16, 32, 3, 7, 15, 31, 63, 6, 24]

/-- The set of a double precision number. It is found among the sets that are made already, and made
is none. -/
def ofFloat? (made : List Nat) (x : Binary64) : Option Flags :=
  ((standing ++ made).find? fun (n : Nat) => x.compareInt n == some .eq).map (⟨·⟩)

/-- The fault of a value that is no set of header options. It is shown once in vain. -/
def notFlags (v : Value) : Render Flags := do
  let _ ← tryCatch v.shown fun f => if f.isAbrupt then throw f else pure []
  let shown ← v.shown
  throw (.notMember (String.ofList shown) "FormatFlags")

def ofValue (made : List Nat) (v : Value) : Render Flags :=
  match v with
  | .flags f => pure f
  | .float x =>
    match ofFloat? made x with
    | some f => pure f
    | none => notFlags v
  | v =>
    match v.int? with
    | none => notFlags v
    | some i => if (ofInt i).nameable then pure (ofInt i) else throw .numberTooLong

def ReadError.toFault (setting : List Char) : ReadError → Render Fault
  | .unknownName name _ =>
    pure (.badSetting "flags" ("Invalid format flag: " ++ name) (some (String.ofList setting)))
  | .outOfRange n => do
    let digits ← Value.integerText n
    let digits := String.ofList digits
    pure (.badSetting "flags" ("Invalid format flags: " ++ digits) (some digits))
  | .badNumber digits cause => pure (Fault.ofNumeral (Text.quote digits.toList) cause)

def accept (setting : List Char) : Except ReadError Flags → Render Flags
  | .ok f => pure f
  | .error e => do
    let fault ← e.toFault setting
    throw fault

def parse (v : Value) : Render Flags :=
  match v.text?, v.int?, v with
  | some s, _, _ => do
    let setting ← v.plain
    accept setting (read s)
  | _, some i, _ => accept [] (readInt i)
  | _, _, .float x =>
    if x.compareInt 0 = some .lt then
      let digits := String.ofList x.text
      throw (.badSetting "flags" ("Invalid format flags: " ++ digits) (some digits))
    else throw .wrongType
  | _, _, _ => throw .wrongType

end LeveledLog.Flags
