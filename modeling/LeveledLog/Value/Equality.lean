import LeveledLog.Value

/-!
Equality of values. Numbers are equal by value across their types, mappings by their entries in
any order, codes and categories by their text. Equal values have equal hash keys; lists and
mappings have none, so they cannot be keys.
-/

namespace LeveledLog.Value

def numberEquals? (a b : Value) : Option Bool :=
  match a, b with
  | float x, float y => some (x.equals y)
  | float x, b => b.int?.map fun j => x.compareInt j == some .eq
  | a, float y => a.int?.map fun i => y.compareInt i == some .eq
  | a, b =>
    match a.int?, b.int? with
    | some i, some j => some (i == j)
    | _, _ => .none

mutual

/-- Equality. Two probes are different objects and never equal. -/
def equals : Value → Value → Bool
  | none, b => match b with | none => true | _ => false
  | text s, b => b.text? == some s
  | severity s, b => b.text? == some s.word
  | bytes xs, b => match b with | bytes ys => xs == ys | _ => false
  | list xs, b => match b with | list ys => listEquals xs ys | _ => false
  | tuple xs, b => match b with | tuple ys => listEquals xs ys | _ => false
  | dict es, b =>
    match b.entries? with
    | some fs => es.length == fs.length && entriesWithin es fs
    | _ => false
  | view es, b =>
    match b.entries? with
    | some fs => es.length == fs.length && entriesWithin es fs
    | _ => false
  | category n, b => match b with | category m => n == m | _ => false
  | code c, b => match b with | code d => c.code == d.code | _ => false
  | probe _, _ => false
  | a, b => (numberEquals? a b).getD false

def listEquals : List Value → List Value → Bool
  | [], ys => ys.isEmpty
  | _ :: _, [] => false
  | x :: xs, y :: ys => equals x y && listEquals xs ys

def entriesWithin : List (Value × Value) → List (Value × Value) → Bool
  | [], _ => true
  | (k, v) :: rest, fs => (fs.any fun f => equals k f.1 && equals v f.2) && entriesWithin rest fs

end

inductive HashKey where
  | none
  | number (n : Int)
  | buffer (bs : List UInt8)
  | tuple (keys : List HashKey)
  | unique
  deriving Repr

mutual

def HashKey.same : HashKey → HashKey → Bool
  | .none, k => match k with | .none => true | _ => false
  | .number a, k =>
    match k with
    | .number b => a == b
    | .buffer bs => a == 0 && bs.isEmpty
    | _ => false
  | .buffer bs, k =>
    match k with
    | .buffer cs => bs == cs
    | .number a => a == 0 && bs.isEmpty
    | _ => false
  | .tuple xs, k => match k with | .tuple ys => HashKey.sameList xs ys | _ => false
  | .unique, _ => false

def HashKey.sameList : List HashKey → List HashKey → Bool
  | [], ys => ys.isEmpty
  | _ :: _, [] => false
  | x :: xs, y :: ys => HashKey.same x y && HashKey.sameList xs ys

end

def hashModulus : Nat := Nat.pow 2 61 - 1

/-- The hash of the fraction `± num · 2 ^ e`; minus one is kept out of the range. -/
def hashNumber (negative : Bool) (num : Nat) (e : Int) : Int :=
  let r := (num % hashModulus) * Nat.pow 2 (e % 61).toNat % hashModulus
  let h : Int := if negative then -(r : Int) else r
  if h = -1 then -2 else h

/-- The bytes that hold a text: one, two or four per character, as the widest one needs. -/
def textBuffer (s : String) : List UInt8 :=
  let points := s.toList.map (·.toNat)
  let width := if points.all (· < 0x100) then 1 else if points.all (· < 0x10000) then 2 else 4
  points.flatMap fun n => (List.range width).map fun i => (n / Nat.pow 256 i).toUInt8

mutual

def hashKey? : Value → Option HashKey
  | none => some .none
  | float (.finite s m e) => some (.number (hashNumber s m e))
  | float (.infinite negative) => some (.number (if negative then -314159 else 314159))
  | float .nan => some .unique
  | text s => some (.buffer (textBuffer s))
  | bytes bs => some (.buffer bs)
  | list _ => .none
  | tuple xs => (hashKeys? xs).map .tuple
  | dict _ => .none
  | view _ => .none
  | probe _ => some .unique
  | category n => some (.buffer (textBuffer n))
  | code c => some (.buffer (textBuffer c.code))
  | severity s => some (.buffer (textBuffer s.word))
  | bool b => some (.number (if b then 1 else 0))
  | int i => some (.number (hashNumber (decide (i < 0)) i.natAbs 0))
  | priority p => some (.number p.rank)
  | flags f => some (.number (hashNumber false f.bits 0))

def hashKeys? : List Value → Option (List HashKey)
  | [] => some []
  | x :: xs =>
    match hashKey? x, hashKeys? xs with
    | some k, some ks => some (k :: ks)
    | _, _ => .none

end

def hashable (v : Value) : Bool := v.hashKey?.isSome

def lookup (key : Value) : List (Value × Value) → Option Value
  | [] => .none
  | (k, v) :: rest => if key.equals k then some v else lookup key rest

def insert (key value : Value) : List (Value × Value) → List (Value × Value)
  | [] => [(key, value)]
  | (k, v) :: rest => if key.equals k then (k, value) :: rest else (k, v) :: insert key value rest

def mapping (entries : List (Value × Value)) : List (Value × Value) :=
  entries.foldl (fun es e => insert e.1 e.2 es) []

end LeveledLog.Value
