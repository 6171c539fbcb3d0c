import LeveledLog.Text.Numeral
import LeveledLog.Text.Upper

/-!
Double precision numbers as exact values: a sign, a significand and a power of two, or one of the
special values. A fraction is rounded to the nearest such number, a half goes to the even
significand, and what is too large becomes infinite.
-/

namespace LeveledLog

/-- A double precision number. A finite one is `± significand · 2 ^ exponent`. -/
inductive Binary64 where
  | finite (negative : Bool) (significand : Nat) (exponent : Int)
  | infinite (negative : Bool)
  | nan
  deriving DecidableEq, Repr

namespace Binary64

def scale (num den base : Nat) : Int → Nat × Nat
  | .ofNat k => (num * Nat.pow base k, den)
  | .negSucc k => (num, den * Nat.pow base (k + 1))

def roundHalfEven (num den : Nat) : Nat :=
  let q := num / den
  let r := num % den
  if den < 2 * r ∨ (den = 2 * r ∧ q % 2 = 1) then q + 1 else q

def precision : Nat := 53

def leastExponent : Int := -1074

def greatestExponent : Int := 971

def zero (negative : Bool) : Binary64 := .finite negative 0 leastExponent

def ofRatio (negative : Bool) (num den : Nat) : Binary64 :=
  if num = 0 then zero negative
  else
    let guess : Int := (num.log2 : Int) - (den.log2 : Int) - precision
    let (n, d) := scale num den 2 (-guess)
    let e := max leastExponent (if n / d < Nat.pow 2 precision then guess else guess + 1)
    let (n, d) := scale num den 2 (-e)
    let m := roundHalfEven n d
    let (m, e) := if m = Nat.pow 2 precision then (Nat.pow 2 (precision - 1), e + 1) else (m, e)
    if greatestExponent < e then .infinite negative else .finite negative m e

def ofInt? (i : Int) : Option Binary64 :=
  match ofRatio (decide (i < 0)) i.natAbs 1 with
  | .finite s m e => some (.finite s m e)
  | _ => none

def ratio (significand : Nat) (exponent : Int) : Nat × Nat := scale significand 1 2 exponent

def compareInt (x : Binary64) (i : Int) : Option Ordering :=
  match x with
  | .nan => none
  | .infinite negative => some (if negative then .lt else .gt)
  | .finite negative m e =>
    let (n, d) := ratio m e
    let v : Int := if negative then -(n : Int) else n
    some (compare v (i * d))

/-- Numeric equality: zeros of both signs are equal, and what is not a number equals nothing. -/
def equals : Binary64 → Binary64 → Bool
  | .infinite a, .infinite b => a == b
  | .finite s m e, .finite s' m' e' =>
    let (n, d) := ratio m e
    let (n', d') := ratio m' e'
    n * d' == n' * d && (s == s' || n == 0)
  | _, _ => false

def truncate (negative : Bool) (significand : Nat) (exponent : Int) : Int :=
  let (n, d) := ratio significand exponent
  if negative then -((n / d : Nat) : Int) else (n / d : Nat)

def integral? : Binary64 → Option Int
  | .finite s m e =>
    let (n, d) := ratio m e
    if n % d = 0 then some (truncate s m e) else none
  | _ => none

def ofDecimal? (negative : Bool) (s : List Char) : Option Binary64 := do
  let (whole, rest) ← Text.scanDigits s [] false
  let (fraction, rest) ←
    match rest with
    | '.' :: rest => Text.scanDigits rest [] false
    | _ => some ([], rest)
  if whole.isEmpty && fraction.isEmpty then none
  let exponent : Int ←
    match rest with
    | [] => some 0
    | c :: rest =>
      if c = 'e' ∨ c = 'E' then
        let (minus, rest) := Text.splitSign rest
        match Text.scanDigits rest [] false with
        | some (ds, []) =>
          if ds.isEmpty then none
          else
            let n := (Text.ofDigits 10 ds : Int)
            some (if minus then -n else n)
        | _ => none
      else none
  let n := Text.ofDigits 10 (whole ++ fraction)
  let e := exponent - fraction.length
  if n = 0 then some (zero negative)
  else if 400 < e + (whole ++ fraction).length then some (.infinite negative)
  else if e + (whole ++ fraction).length < -400 then some (zero negative)
  else
    let (n, d) := scale n 1 10 e
    some (ofRatio negative n d)

def ofText? (s : String) : Option Binary64 :=
  let (negative, body) := Text.splitSign (Text.trim Text.isNumberBlank s.toList)
  let name := Text.lowerAscii (String.ofList body)
  if name = "inf" ∨ name = "infinity" then some (.infinite negative)
  else if name = "nan" then some .nan
  else ofDecimal? negative body

end Binary64

end LeveledLog
