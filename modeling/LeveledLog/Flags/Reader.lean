import LeveledLog.Flags
import LeveledLog.Text.Upper

/-!
Header options in configuration: a number whose bits all have a meaning, or names between bars,
commas and blanks, in any case.
-/

namespace LeveledLog.Flags

inductive ReadError where
  | unknownName (name setting : String)
  | outOfRange (n : Int)
  | badNumber (digits : String) (cause : Text.NumeralError)
  deriving DecidableEq, Repr

def named : List (String × Flags) :=
  (HeaderOption.all.map fun o => (o.name, single o)) ++ [("STD", standard)]

def ofName? (name : List Char) : Option Flags :=
  named.lookup (String.ofList (Text.upper name))

def isSeparator (c : Char) : Bool := c == '|' || c == ',' || Text.isBlank c

def ofNames (setting : String) : List (List Char) → Except ReadError Flags
  | [] => .ok empty
  | name :: more =>
    match ofName? name with
    | none => .error (.unknownName (String.ofList name) setting)
    | some f => (ofNames setting more).map f.union

/-- An integer whose bits all have a meaning. -/
def readInt (n : Int) : Except ReadError Flags :=
  if 0 ≤ n ∧ n < bound then .ok ⟨n.toNat⟩ else .error (.outOfRange n)

/-- Reads a setting. A text of digits is a number, any other text a list of names. -/
def read (setting : String) : Except ReadError Flags :=
  let body := Text.strip setting.toList
  if Text.isDigits (String.ofList body) then
    match Text.readInteger body with
    | .ok n => readInt n
    | .error e => .error (.badNumber (String.ofList body) e)
  else ofNames setting (Text.words isSeparator body)

end LeveledLog.Flags
