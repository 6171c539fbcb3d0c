import LeveledLog.Number.Binary64

/-!
Decimal forms of double precision numbers: with fixed places, with a number of significant
digits, and the shortest one that reads back. All are exact; a half goes to the even digit. The
printed forms differ in when they turn to an exponent and in whether trailing zeros are kept.
-/

namespace LeveledLog

/-- The decimal number `0.d₁d₂… · 10 ^ point`. -/
structure Decimal where
  digits : List Nat
  point : Int
  deriving DecidableEq, Repr

namespace Decimal

open Binary64 (scale roundHalfEven ratio)

/-- The position of the point of a positive fraction: `10 ^ (k - 1) ≤ num / den < 10 ^ k`. -/
def magnitude (num den : Nat) : Int :=
  let guess : Int := ((Text.digits 10 num).length : Int) - (Text.digits 10 den).length
  let (n, d) := scale num den 10 (-guess)
  if d ≤ n then guess + 1 else guess

def rounded (count num den : Nat) : Decimal :=
  if num = 0 then ⟨List.replicate count 0, 1⟩
  else
    let k := magnitude num den
    let (n, d) := scale num den 10 (count - k)
    let q := roundHalfEven n d
    if q = Nat.pow 10 count then ⟨Text.digits 10 (Nat.pow 10 (count - 1)), k + 1⟩
    else ⟨Text.digits 10 q, k⟩

/-- No double precision number has more significant digits than this. -/
def exactDigits : Nat := 767

def exactPlaces : Nat := 1074

def ofSignificant (count num den : Nat) : Decimal :=
  let x := rounded (min count exactDigits) num den
  ⟨x.digits ++ List.replicate (count - exactDigits) 0, x.point⟩

def trim (x : Decimal) : Decimal :=
  ⟨(x.digits.reverse.dropWhile (· == 0)).reverse, x.point⟩

/-- The neighbour on the grid of `count` digits that reads back as the number, if one does. When
both do, the nearer one is taken, and the even one when both are as near. -/
def ofGrid? (count m : Nat) (e : Int) : Option Decimal :=
  let (num, den) := ratio m e
  let k := magnitude num den
  let (n, d) := scale num den 10 (count - k)
  let q := n / d
  let readsBack (c : Nat) : Bool :=
    let (a, b) := scale c 1 10 (k - count)
    Binary64.ofRatio false a b == .finite false m e
  let decimal (c : Nat) : Decimal :=
    let ds := Text.digits 10 c
    trim ⟨ds, k + (ds.length - count)⟩
  match readsBack q, readsBack (q + 1) with
  | true, true => some (decimal (roundHalfEven n d))
  | true, false => some (decimal q)
  | false, true => some (decimal (q + 1))
  | false, false => none

def firstGrid? (m : Nat) (e : Int) : List Nat → Option Decimal
  | [] => none
  | count :: more => (ofGrid? count m e).or (firstGrid? m e more)

def shortest (m : Nat) (e : Int) : Decimal :=
  if m = 0 then ⟨[0], 1⟩
  else
    match firstGrid? m e ((List.range 17).map (· + 1)) with
    | some x => x
    | none => let (num, den) := ratio m e; ofSignificant 17 num den

def digitText (ds : List Nat) : List Char := ds.map Text.digitChar

def exponentText (e : Int) : List Char :=
  (if e < 0 then '-' else '+') :: Text.zeroFill 2 (Text.natural 10 e.natAbs)

def wholePart (x : Decimal) : List Nat :=
  if x.point ≤ 0 then [0]
  else x.digits.take x.point.toNat ++ List.replicate (x.point.toNat - x.digits.length) 0

def fractionPart (x : Decimal) : List Nat :=
  if x.point ≤ 0 then List.replicate (-x.point).toNat 0 ++ x.digits
  else x.digits.drop x.point.toNat

/-- Digits around a point, which is left out before nothing unless it is asked for. -/
def pointed (keepPoint : Bool) (whole fraction : List Nat) : List Char :=
  digitText whole ++
    if fraction.isEmpty && !keepPoint then [] else '.' :: digitText fraction

def positional (keepPoint : Bool) (x : Decimal) : List Char :=
  pointed keepPoint x.wholePart x.fractionPart

def exponential (keepPoint : Bool) (mark : Char) (x : Decimal) : List Char :=
  pointed keepPoint (x.digits.take 1) (x.digits.drop 1) ++ mark :: exponentText (x.point - 1)

/-- The shortest form: an exponent below `10 ^ -4` and from `10 ^ 16` on, else a point with at
least one digit after it. -/
def shortestText (m : Nat) (e : Int) : List Char :=
  let x := shortest m e
  if -4 < x.point ∧ x.point ≤ 16 then
    pointed true x.wholePart (if x.fractionPart.isEmpty then [0] else x.fractionPart)
  else exponential false 'e' x

def fixedText (keepPoint : Bool) (places m : Nat) (e : Int) : List Char :=
  let (n, d) := ratio m e
  let exact := min places exactPlaces
  let q := roundHalfEven (n * Nat.pow 10 exact) d
  let ds := Text.digits 10 q
  let ds := List.replicate (exact + 1 - ds.length) 0 ++ ds
  pointed keepPoint (ds.take (ds.length - exact))
    (ds.drop (ds.length - exact) ++ List.replicate (places - exact) 0)

def exponentialText (keepPoint : Bool) (places m : Nat) (e : Int) : List Char :=
  let (n, d) := ratio m e
  exponential keepPoint 'e' (ofSignificant (places + 1) n d)

/-- The form with a number of significant digits, without trailing zeros unless `full`: an
exponent below `10 ^ -4` and when there are more digits before the point than significant ones. -/
def generalText (full : Bool) (count m : Nat) (e : Int) : List Char :=
  let (n, d) := ratio m e
  let x := ofSignificant count n d
  let positionally := -4 < x.point ∧ x.point ≤ count
  let x := if full || m = 0 then x else x.trim
  let x := if !full && m = 0 then ⟨[0], 1⟩ else x
  if positionally then positional full x else exponential full 'e' x

end Decimal

namespace Binary64

def signed (form : Nat → Int → List Char) : Binary64 → List Char
  | .nan => ['n', 'a', 'n']
  | .infinite negative => if negative then ['-', 'i', 'n', 'f'] else ['i', 'n', 'f']
  | .finite negative m e => if negative then '-' :: form m e else form m e

def text (x : Binary64) : List Char := x.signed Decimal.shortestText

end Binary64

end LeveledLog
