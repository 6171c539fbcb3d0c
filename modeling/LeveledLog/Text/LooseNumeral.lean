import LeveledLog.Text.Numeral

/-!
Integers as configuration spells them, in ASCII digits: needless zeros in front, a fraction of
zeros, single underscores between digits, a plus, and blanks around the number are taken away, and
what is left has to be a plain integer.
-/

namespace LeveledLog.Text.Loose

def isDigit (c : Char) : Bool := '0' ≤ c && c ≤ '9'

def plainInteger? (s : List Char) : Option Int :=
  let negative := s.head? = some '-'
  let body := if negative then s.drop 1 else s
  if body.isEmpty || digitLimit < body.length || !body.all isDigit then none
  else if body.head? = some '0' && 1 < body.length then none
  else
    let n := (ofDigits 10 (body.map fun c => c.toNat - '0'.toNat) : Int)
    some (if negative then -n else n)

/-- A plus is dropped, unless a minus follows it. -/
def dropPlus : List Char → Option (List Char)
  | '+' :: '-' :: _ => none
  | '+' :: rest => some rest
  | s => some s

/-- What follows zeros and underscores in front of a number, the last of which is given. A point
keeps it, and so does the end. -/
def afterZeros (last : Char) : List Char → Option (List Char)
  | [] => some [last]
  | c :: rest =>
    if c = '0' || c = '_' then afterZeros c rest
    else if isDigit c || c = '-' then some (c :: rest)
    else if c = '.' then some (last :: c :: rest)
    else none

/-- Zeros in front of a number are dropped; a number begins with a digit or a minus. -/
def dropZeros : List Char → Option (List Char)
  | [] => none
  | c :: rest =>
    if c = '0' then afterZeros c rest
    else if isDigit c || c = '-' then some (c :: rest)
    else none

def dropFraction (s : List Char) : List Char :=
  let fraction := (s.dropWhile (· != '.')).drop 1
  if !fraction.isEmpty && fraction.all (· == '0') then s.takeWhile (· != '.') else s

def hasDoubleUnderscore : List Char → Bool
  | '_' :: '_' :: _ => true
  | _ :: rest => hasDoubleUnderscore rest
  | [] => false

/-- Underscores are dropped, unless one stands at an end or beside another. -/
def dropUnderscores (s : List Char) : List Char :=
  if s.head? = some '_' || s.getLast? = some '_' || hasDoubleUnderscore s then s
  else s.filter (· != '_')

def integer? (s : List Char) : Option Int :=
  match plainInteger? s with
  | some n => some n
  | none => do
    let s ← dropPlus (trim isNumberBlank s)
    let s ← dropZeros s
    plainInteger? (dropUnderscores (dropFraction s))

end LeveledLog.Text.Loose
