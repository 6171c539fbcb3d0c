import LeveledLog.Handoff

/-!
A schedule of a hand-off: parties go on in a fixed order of preference until none of them can.
-/

namespace LeveledLog.Handoff

variable {Party Item : Type} [DecidableEq Party]

def settle (parties : List Party) : Nat → State Party Item → State Party Item
  | 0, s => s
  | fuel + 1, s =>
    match parties.find? fun p => decide (Enabled s (.step p)) with
    | none => s
    | some p => settle parties fuel (next s (.step p))

def stepsPerParty : Nat := 16

def rest (parties : List Party) (s : State Party Item) : State Party Item :=
  settle parties (stepsPerParty * (parties.length + 1) * (parties.length + 1)) s

end LeveledLog.Handoff
