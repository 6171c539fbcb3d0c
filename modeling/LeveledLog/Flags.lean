import LeveledLog.Text.Numeral

/-!
Header options: what is written in front of a message. Six bits have a meaning. Any other bit is
kept, so that a set of options shows the number it was made from, but no output depends on it.
-/

namespace LeveledLog

inductive HeaderOption where
  | date
  | time
  | microseconds
  | longFile
  /-- The last part of the path and the line: `d:23`. It wins over `longFile`. -/
  | shortFile
  /-- The destination is the system log: no tag and no timestamp. -/
  | syslog
  deriving DecidableEq, Repr

namespace HeaderOption

def all : List HeaderOption := [date, time, microseconds, longFile, shortFile, syslog]

def bit : HeaderOption → Nat
  | date => 0
  | time => 1
  | microseconds => 2
  | longFile => 3
  | shortFile => 4
  | syslog => 5

def name : HeaderOption → String
  | date => "DATE"
  | time => "TIME"
  | microseconds => "MICROSECONDS"
  | longFile => "LONG_FILE"
  | shortFile => "SHORT_FILE"
  | syslog => "SYSLOG"

end HeaderOption

/-- A set of header options, as the number whose bits they are. -/
structure Flags where
  bits : Nat
  deriving DecidableEq, Repr

namespace Flags

def empty : Flags := ⟨0⟩

def single (o : HeaderOption) : Flags := ⟨Nat.pow 2 o.bit⟩

def has (f : Flags) (o : HeaderOption) : Bool := f.bits.testBit o.bit

def union (f g : Flags) : Flags := ⟨f.bits ||| g.bits⟩

def standard : Flags := (single .date).union (single .time)

/-- One more than the largest number whose bits all have a meaning. -/
def bound : Nat := 64

def known (f : Flags) : Nat := f.bits % bound

def unknown (f : Flags) : Nat := f.bits / bound * bound

def bitLength (n : Nat) : Nat := if n = 0 then 0 else n.log2 + 1

/-- The set that an integer stands for. A negative integer counts down from a power of two that
leaves no bit of it out. -/
def ofInt (i : Int) : Flags :=
  if 0 ≤ i then ⟨i.toNat⟩
  else if -(bound : Int) ≤ i then ⟨(bound + i).toNat⟩
  else ⟨(Nat.pow 2 (bitLength i.natAbs) + i).toNat⟩

def optionNames (f : Flags) : List String := (HeaderOption.all.filter f.has).map (·.name)

/-- The name of a set with a meaningful option: the usual header has a name of its own, any other
set lists its options and then the number of what else it holds. -/
def name? (f : Flags) : Option String :=
  if f = standard then some "STD"
  else if f.known = 0 then none
  else
    let rest := if f.unknown = 0 then [] else [String.ofList (Text.natural 10 f.unknown)]
    some (String.intercalate "|" (f.optionNames ++ rest))

/-- A set lists what has no meaning by a number, so it has a name only while that number can be
written. -/
def nameable (f : Flags) : Bool :=
  f.known = 0 || (Text.decimal? f.unknown).isSome

def describe? (f : Flags) : Option String :=
  (Text.decimal? f.bits).map fun digits =>
    let name := match f.name? with
      | some n => "." ++ n
      | none => ""
    "<FormatFlags" ++ name ++ ": " ++ String.ofList digits ++ ">"

end Flags

end LeveledLog
