import LeveledLog.Update

/-!
A hand-off: one slot through which items go from senders to receivers. A sender holds its turn
from before it puts its item into the slot until it has seen the slot empty again, so the others
wait for their turn. The slot is only touched by the party inside the monitor; whoever finds it in
the wrong state leaves the monitor and sleeps until the slot changes. Every event is one step of
one party, and all orders of events are runs.
-/

namespace LeveledLog.Handoff

inductive Phase (Item : Type) where
  | idle
  | received (x : Item)
  | queued (x : Item)
  /-- A sender at its turn that waits to enter the monitor. -/
  | entering (x : Item)
  | filling (x : Item)
  /-- A sender inside the monitor that is about to look whether the slot is empty. -/
  | checking
  /-- A sender that has left the monitor for good and still holds its turn. -/
  | leaving
  /-- A sender that sleeps while the slot is full. -/
  | asleep
  /-- A sender that was woken and waits to enter the monitor again. -/
  | woken
  | approaching
  | looking
  /-- A receiver that sleeps while the slot is empty. -/
  | dozing
  /-- A receiver that was woken and waits to enter the monitor again. -/
  | roused
  deriving DecidableEq, Repr

namespace Phase

variable {Item : Type}

def AtRest : Phase Item → Prop
  | idle => True
  | received _ => True
  | _ => False

instance (p : Phase Item) : Decidable p.AtRest := by
  cases p <;> simp only [AtRest] <;> infer_instance

def notify : Phase Item → Phase Item
  | asleep => woken
  | dozing => roused
  | p => p

end Phase

structure State (Party Item : Type) where
  /-- The sender at its turn. -/
  turn : Option Party
  monitor : Option Party
  slot : Option Item
  phase : Party → Phase Item
  /-- The items put into the slot so far, with their senders, oldest first. -/
  deposited : List (Party × Item)
  taken : List Item
  returned : Party → Nat

variable {Party Item : Type}

def initial : State Party Item :=
  ⟨none, none, none, fun _ => .idle, [], [], fun _ => 0⟩

inductive Event (Party Item : Type) where
  | send (p : Party) (x : Item)
  | receive (p : Party)
  | step (p : Party)
  deriving DecidableEq, Repr

def CanStep (s : State Party Item) : Phase Item → Prop
  | .idle => False
  | .received _ => False
  | .queued _ => s.turn = none
  | .entering _ => s.monitor = none
  | .filling _ => True
  | .checking => True
  | .leaving => True
  | .asleep => False
  | .woken => s.monitor = none
  | .approaching => s.monitor = none
  | .looking => True
  | .dozing => False
  | .roused => s.monitor = none

instance [DecidableEq Party] (s : State Party Item) (p : Phase Item) :
    Decidable (CanStep s p) := by
  cases p <;> simp only [CanStep] <;> infer_instance

def Enabled (s : State Party Item) : Event Party Item → Prop
  | .send p _ => (s.phase p).AtRest
  | .receive p => (s.phase p).AtRest
  | .step p => CanStep s (s.phase p)

instance [DecidableEq Party] (s : State Party Item) (e : Event Party Item) :
    Decidable (Enabled s e) := by
  cases e <;> simp only [Enabled] <;> infer_instance

def State.moved [DecidableEq Party] (s : State Party Item) (p : Party) (ph : Phase Item) :
    State Party Item :=
  { s with phase := update s.phase p ph }

def State.notified (s : State Party Item) : State Party Item :=
  { s with phase := fun p => (s.phase p).notify }

section

variable [DecidableEq Party] (s : State Party Item) (p : Party) (ph : Phase Item)

@[simp] theorem moved_turn : (s.moved p ph).turn = s.turn := rfl
@[simp] theorem moved_monitor : (s.moved p ph).monitor = s.monitor := rfl
@[simp] theorem moved_slot : (s.moved p ph).slot = s.slot := rfl
@[simp] theorem moved_phase : (s.moved p ph).phase = update s.phase p ph := rfl
@[simp] theorem moved_deposited : (s.moved p ph).deposited = s.deposited := rfl
@[simp] theorem moved_taken : (s.moved p ph).taken = s.taken := rfl
@[simp] theorem moved_returned : (s.moved p ph).returned = s.returned := rfl

end

section

variable (s : State Party Item)

@[simp] theorem notified_turn : s.notified.turn = s.turn := rfl
@[simp] theorem notified_monitor : s.notified.monitor = s.monitor := rfl
@[simp] theorem notified_slot : s.notified.slot = s.slot := rfl
@[simp] theorem notified_phase : s.notified.phase = fun p => (s.phase p).notify := rfl
@[simp] theorem notified_deposited : s.notified.deposited = s.deposited := rfl
@[simp] theorem notified_taken : s.notified.taken = s.taken := rfl
@[simp] theorem notified_returned : s.notified.returned = s.returned := rfl

end

def advance [DecidableEq Party] (s : State Party Item) (p : Party) :
    Phase Item → State Party Item
  | .queued x => { s with turn := some p }.moved p (.entering x)
  | .entering x => { s with monitor := some p }.moved p (.filling x)
  | .filling x =>
    { s with slot := some x, deposited := s.deposited ++ [(p, x)] }.notified.moved p .checking
  | .checking =>
    match s.slot with
    | some _ => { s with monitor := none }.moved p .asleep
    | none => { s with monitor := none }.moved p .leaving
  | .leaving =>
    { s with turn := none, returned := update s.returned p (s.returned p + 1) }.moved p .idle
  | .woken => { s with monitor := some p }.moved p .checking
  | .approaching => { s with monitor := some p }.moved p .looking
  | .looking =>
    match s.slot with
    | none => { s with monitor := none }.moved p .dozing
    | some x =>
      { s with slot := none, monitor := none, taken := s.taken ++ [x] }.notified.moved p
        (.received x)
  | .roused => { s with monitor := some p }.moved p .looking
  | _ => s

def next [DecidableEq Party] (s : State Party Item) : Event Party Item → State Party Item
  | .send p x => s.moved p (.queued x)
  | .receive p => s.moved p .approaching
  | .step p => advance s p (s.phase p)

def Step [DecidableEq Party] (s : State Party Item) (e : Event Party Item)
    (t : State Party Item) : Prop :=
  Enabled s e ∧ t = next s e

inductive Execution [DecidableEq Party] : State Party Item → State Party Item → Prop where
  | refl (s) : Execution s s
  | tail {s t u e} : Execution s t → Step t e u → Execution s u

def Reachable [DecidableEq Party] (s : State Party Item) : Prop := Execution initial s

end LeveledLog.Handoff
