import LeveledLog.Template
import LeveledLog.Text.Upper
import LeveledLog.Value.Equality
import LeveledLog.Value.Text

/-!
Filling in a template. Values come from a tuple, one for each directive and all of them used, or
from a mapping, by the keys of the directives. Rendering goes from left to right and stops at the
first fault.
-/

namespace LeveledLog.Template

inductive Operands where
  | tuple (values : List Value)
  | mapping (m : Value) (entries : List (Value × Value))

/-- What is left of the operands: the mapping, if there is one, and the values to be used next. -/
structure Supply where
  mapping : Option (List (Value × Value))
  pending : List Value

/-- At the start a tuple has all its values; a mapping is a single value itself. -/
def Operands.supply : Operands → Supply
  | .tuple values => ⟨none, values⟩
  | .mapping m entries => ⟨some entries, [m]⟩

def Supply.take (s : Supply) : Render (Value × Supply) :=
  match s.pending with
  | v :: rest => pure (v, { s with pending := rest })
  | [] => throw .wrongType

def Supply.select (s : Supply) (key : List Char) : Render Supply :=
  match s.mapping with
  | none => throw .wrongType
  | some entries =>
    match Value.lookup (.text (String.ofList key)) entries with
    | some v => pure { s with pending := [v] }
    | none => throw .noSuchKey

def takenWidth (v : Value) : Render (Bool × Nat) :=
  match v.int? with
  | none => throw .wrongType
  | some i =>
    if i < -(widthBound + 1) ∨ widthBound < i then throw .integerTooLargeForWidth
    else pure (decide (i < 0), i.natAbs)

def takenPrecision (v : Value) : Render Nat :=
  match v.int? with
  | none => throw .wrongType
  | some i =>
    if i < -(precisionBound + 1) ∨ precisionBound < i then throw .integerTooLargeForPrecision
    else pure i.toNat

def resolveWidth (s : Supply) : Option Size → Render ((Bool × Nat) × Supply)
  | none => pure ((false, 0), s)
  | some (.given n) => pure ((false, n), s)
  | some .excessive => throw .badTemplate
  | some .taken => do
    let (v, s) ← s.take
    let w ← takenWidth v
    pure (w, s)

def resolvePrecision (s : Supply) : Option Size → Render (Option Nat × Supply)
  | none => pure (none, s)
  | some (.given n) => pure (some n, s)
  | some .excessive => throw .badTemplate
  | some .taken => do
    let (v, s) ← s.take
    let p ← takenPrecision v
    pure (some p, s)

structure Field where
  /-- A number has a place for a sign and may be padded with zeros. -/
  numeric : Bool
  negative : Bool
  /-- The marker of a base, which stays in front of padding zeros. -/
  marker : List Char
  body : List CodePoint

namespace Field

def ofText (precision : Option Nat) (s : List Char) : Field :=
  ⟨false, false, [], Text.points (match precision with | some n => s.take n | none => s)⟩

def ofPoint (p : CodePoint) : Field := ⟨false, false, [], [p]⟩

def ofDigits (negative : Bool) (marker digits : List Char) : Field :=
  ⟨true, negative, marker, Text.points digits⟩

def ofNumber (marker : List Char) (s : List Char) : Field :=
  match s with
  | '-' :: rest => ofDigits true marker rest
  | s => ofDigits false marker s

def capital (f : Field) : Field :=
  { f with marker := Text.upper f.marker, body := f.body.flatMap CodePoint.upper }

end Field

def wholeNumber : Value → Render Int
  | .float .nan => throw .nanToInteger
  | .float (.infinite _) => throw .infinityToInteger
  | .float (.finite s m e) => pure (Binary64.truncate s m e)
  | v =>
    match v.int? with
    | some i => pure i
    | none => throw .wrongType

def floatingNumber : Value → Render Binary64
  | .float x => pure x
  | v =>
    match v.int? with
    | none => throw .wrongType
    | some i =>
      match Binary64.ofInt? i with
      | some x => pure x
      | none => throw .integerTooLargeForFloat

def digitBound : Nat := precisionBound - 3

def checkPrecision (precision : Option Nat) : Render Unit :=
  match precision with
  | none => pure ()
  | some n => if digitBound < n then throw .precisionTooLarge else pure ()

def fillDigits (precision : Option Nat) (ds : List Char) : List Char :=
  List.replicate (precision.getD 0 - ds.length) '0' ++ ds

def decimalField (precision : Option Nat) (v : Value) : Render Field := do
  let i ← wholeNumber v
  checkPrecision precision
  let ds ← Value.integerText i.natAbs
  pure (.ofDigits (decide (i < 0)) [] (fillDigits precision ds))

def baseField (base : Nat) (marker : List Char) (alternate : Bool) (precision : Option Nat)
    (v : Value) : Render Field :=
  match v.int? with
  | none => throw .wrongType
  | some i => do
    checkPrecision precision
    let ds := fillDigits precision (Text.natural base i.natAbs)
    pure (.ofDigits (decide (i < 0)) (if alternate then marker else []) ds)

def defaultPlaces : Nat := 6

def floatField (form : Nat → Nat → Int → List Char) (precision : Option Nat) (v : Value) :
    Render Field := do
  let x ← floatingNumber v
  pure (Field.ofNumber [] (x.signed (form (precision.getD defaultPlaces))))

def generalForm (alternate : Bool) (count : Nat) : Nat → Int → List Char :=
  Decimal.generalText alternate (max count 1)

def pointOf (i : Int) : Option CodePoint := if i < 0 then none else CodePoint.ofNat? i.toNat

def character (v : Value) : Render CodePoint :=
  match v.text? with
  | some s => match s.toList with
    | [c] => pure (.char c)
    | _ => throw .wrongType
  | none =>
    match v.int? with
    | none => throw .wrongType
    | some i =>
      match pointOf i with
      | some p => pure p
      | none => throw .noSuchCharacter

def convert (letter : Char) (alternate : Bool) (precision : Option Nat) (v : Value) :
    Render Field :=
  match letter with
  | 's' => Field.ofText precision <$> v.plain
  | 'r' => Field.ofText precision <$> v.shown
  | 'a' => Field.ofText precision <$> v.ascii
  | 'd' => decimalField precision v
  | 'i' => decimalField precision v
  | 'u' => decimalField precision v
  | 'o' => baseField 8 ['0', 'o'] alternate precision v
  | 'x' => baseField 16 ['0', 'x'] alternate precision v
  | 'X' => Field.capital <$> baseField 16 ['0', 'x'] alternate precision v
  | 'e' => floatField (Decimal.exponentialText alternate) precision v
  | 'E' => Field.capital <$> floatField (Decimal.exponentialText alternate) precision v
  | 'f' => floatField (Decimal.fixedText alternate) precision v
  | 'F' => Field.capital <$> floatField (Decimal.fixedText alternate) precision v
  | 'g' => floatField (generalForm alternate) precision v
  | 'G' => Field.capital <$> floatField (generalForm alternate) precision v
  | 'c' => Field.ofPoint <$> character v
  | _ => throw .badTemplate

/-- Pads a field to a width: after it, between sign and digits, or before it. -/
def Field.layout (f : Field) (d : Directive) (leftAlign : Bool) (width : Nat) :
    List CodePoint :=
  let sign : List Char :=
    if !f.numeric then []
    else if f.negative then ['-']
    else if d.plus then ['+']
    else if d.space then [' ']
    else []
  let front := Text.points (sign ++ f.marker)
  let fill (c : Char) := Text.points (List.replicate (width - (front.length + f.body.length)) c)
  if leftAlign then front ++ f.body ++ fill ' '
  else if f.numeric && d.zero then front ++ fill '0' ++ f.body
  else fill ' ' ++ front ++ f.body

def Directive.render (room : Room) (d : Directive) (s : Supply) :
    Render (List CodePoint × Supply) := do
  let s ←
    match d.key with
    | some key => s.select key
    | none => pure s
  let ((left, width), s) ← resolveWidth s d.width
  let (precision, s) ← resolvePrecision s d.precision
  match d.conversion with
  | none => throw .badTemplate
  | some letter =>
    let (v, s) ← s.take
    let f ← convert letter d.alternate precision v
    Value.checkSize room width
    pure (f.layout d (d.leftAlign || left) width, s)

def renderPieces (room : Room) : List Piece → Supply → Render (List CodePoint)
  | [], s => if s.mapping.isNone && !s.pending.isEmpty then throw .wrongType else pure []
  | .literal c :: rest, s => do
    let out ← renderPieces room rest s
    pure (.char c :: out)
  | .directive d :: rest, s => do
    let (piece, s) ← d.render room s
    let out ← renderPieces room rest s
    pure (piece ++ out)
  | .openKey :: _, s => if s.mapping.isNone then throw .wrongType else throw .badTemplate

def fill (room : Room) (template : List Char) (operands : Operands) : Render (List CodePoint) :=
  renderPieces room (parse template) operands.supply

end LeveledLog.Template
