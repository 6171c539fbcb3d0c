/-!
Points in time as a clock shows them, to the microsecond.
-/

namespace LeveledLog

structure Stamp where
  year : Nat
  month : Nat
  day : Nat
  hour : Nat
  minute : Nat
  second : Nat
  microsecond : Nat
  deriving DecidableEq, Repr

namespace Stamp

def parts (t : Stamp) : List Nat :=
  [t.year, t.month, t.day, t.hour, t.minute, t.second, t.microsecond]

def Valid (t : Stamp) : Prop :=
  1 ≤ t.year ∧ t.year ≤ 9999 ∧ 1 ≤ t.month ∧ t.month ≤ 12 ∧ 1 ≤ t.day ∧ t.day ≤ 31 ∧
    t.hour ≤ 23 ∧ t.minute ≤ 59 ∧ t.second ≤ 59 ∧ t.microsecond ≤ 999999

instance (t : Stamp) : Decidable t.Valid := by unfold Valid; infer_instance

def monthNames : List String :=
  ["Jan", "Feb", "Mar", "Apr", "May", "Jun", "Jul", "Aug", "Sep", "Oct", "Nov", "Dec"]

def monthName (t : Stamp) : String := monthNames.getD (t.month - 1) ""

def isLeap (year : Nat) : Bool := year % 4 == 0 && (year % 100 != 0 || year % 400 == 0)

def monthLengths (year : Nat) : List Nat :=
  [31, if isLeap year then 29 else 28, 31, 30, 31, 30, 31, 31, 30, 31, 30, 31]

end Stamp

inductive StampError where
  | year (y : Int)
  | month
  | day
  | hour
  | minute
  | second
  | microsecond
  deriving DecidableEq, Repr

def StampError.message : StampError → String
  | year y => "year " ++ toString y ++ " is out of range"
  | month => "month must be in 1..12"
  | day => "day is out of range for month"
  | hour => "hour must be in 0..23"
  | minute => "minute must be in 0..59"
  | second => "second must be in 0..59"
  | microsecond => "microsecond must be in 0..999999"

namespace Stamp

def within (low high : Nat) (e : StampError) (n : Int) : Except StampError Nat :=
  if low ≤ n ∧ n ≤ high then .ok n.toNat else .error e

def ofParts (y mo d h mi s us : Int) : Except StampError Stamp := do
  let year ← within 1 9999 (.year y) y
  let month ← within 1 12 .month mo
  let day ← within 1 ((monthLengths year).getD (month - 1) 0) .day d
  let hour ← within 0 23 .hour h
  let minute ← within 0 59 .minute mi
  let second ← within 0 59 .second s
  let microsecond ← within 0 999999 .microsecond us
  pure ⟨year, month, day, hour, minute, second, microsecond⟩

end Stamp

end LeveledLog
