import LeveledLog.Text.Blank
import LeveledLog.Text.Digit

/-!
Numbers as text: digits in a base, decimal integers with a bound on their length, padding with
zeros after the sign, and reading integers back. Reading accepts decimal digits of any script,
blanks around the number, one sign, and single underscores between digits.
-/

namespace LeveledLog.Text

def digits (base n : Nat) : List Nat :=
  if n < base ∨ base < 2 then [n] else digits base (n / base) ++ [n % base]
termination_by n
decreasing_by
  rename_i h
  simp only [not_or, Nat.not_lt] at h
  exact Nat.div_lt_self (by omega) (by omega)

def digitChar (d : Nat) : Char :=
  Char.ofNat (if d < 10 then 48 + d else 87 + d)

def natural (base n : Nat) : List Char := (digits base n).map digitChar

def decimal (i : Int) : List Char :=
  if i < 0 then '-' :: natural 10 i.natAbs else natural 10 i.natAbs

def digitLimit : Nat := 4300

def decimal? (i : Int) : Option (List Char) :=
  if i.natAbs < Nat.pow 10 digitLimit then some (decimal i) else none

def zeroFill (width : Nat) (s : List Char) : List Char :=
  let zeros := List.replicate (width - s.length) '0'
  match s with
  | '-' :: rest => '-' :: (zeros ++ rest)
  | '+' :: rest => '+' :: (zeros ++ rest)
  | _ => zeros ++ s

def paddedDecimal (width : Nat) (i : Int) : List Char := zeroFill width (decimal i)

inductive NumeralError where
  | malformed
  | tooLong (count : Nat)
  deriving DecidableEq, Repr

/-- Digits with single underscores between them. The place values come back with what follows the
number; nothing comes back when an underscore has no digit on one of its sides. -/
def scanDigits : List Char → List Nat → Bool → Option (List Nat × List Char)
  | [], acc, afterDigit => if afterDigit || acc.isEmpty then some (acc.reverse, []) else none
  | c :: rest, acc, afterDigit =>
    match decimalValue? c with
    | some d => scanDigits rest (d :: acc) true
    | none =>
      if c = '_' then if afterDigit then scanDigits rest acc false else none
      else if afterDigit || acc.isEmpty then some (acc.reverse, c :: rest) else none

def ofDigits (base : Nat) (ds : List Nat) : Nat := ds.foldl (fun n d => n * base + d) 0

def splitSign : List Char → Bool × List Char
  | '-' :: rest => (true, rest)
  | '+' :: rest => (false, rest)
  | s => (false, s)

/-- Reads an integer. A number that is too long is reported as such even if junk follows it. -/
def readInteger (s : List Char) : Except NumeralError Int :=
  let (negative, body) := splitSign (trim isNumberBlank s)
  match scanDigits body [] false with
  | none => .error .malformed
  | some (ds, rest) =>
    if digitLimit < ds.length then .error (.tooLong ds.length)
    else if ds.isEmpty || !rest.isEmpty then .error .malformed
    else
      let n := (ofDigits 10 ds : Int)
      .ok (if negative then -n else n)

end LeveledLog.Text
