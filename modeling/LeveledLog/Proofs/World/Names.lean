import LeveledLog.Proofs.World.Lasting

/-!
A logger keeps its number, and with it the name of its worker: no turn of anybody changes it,
however deep turns are nested in other turns.
-/

namespace LeveledLog

namespace Logger

section

variable (now : Stamp) (s : State) (t : Thread)

@[simp] theorem set_number (p : Progress) : (s.set t p).number = s.number := rfl

theorem callerStep_number (p : Progress) : (callerStep s now t p).number = s.number := by
  cases p with
  | deciding i l =>
    rw [callerStep]
    split <;> rfl
  | composing i =>
    rw [callerStep, compose]
    split <;> rfl
  | handing tasks ending looks =>
    rw [callerStep]
    rcases tasks with _ | ⟨_ | _, rest⟩ <;> rfl
  | sending wait tasks ending looks =>
    rw [callerStep]
    unfold sendOn
    dsimp only
    split
    · cases wait <;> rfl
    · rfl
  | idle | awaiting | flushing | done => rfl

theorem fail_number (l : List CodePoint) (f : Fault) : (fail s l f).number = s.number := by
  rw [fail]
  split <;> rfl

theorem workerStep_number (outcome : Option Fault) (p : WorkerPhase) :
    (workerStep s outcome p).number = s.number := by
  cases p with
  | reporting d => rfl
  | receiving =>
    rw [workerStep]
    split
    · rfl
    · split <;> rfl
    · rfl
  | writing l =>
    cases outcome with
    | none => rfl
    | some f => exact fail_number _ l f
  | flushing l =>
    cases outcome with
    | none => rfl
    | some f => exact fail_number s l f
  | ended => rfl

theorem next_number (e : Event) : (next now s e).number = s.number := by
  cases e with
  | start t i => rfl
  | caller t => exact callerStep_number now s t _
  | worker outcome => exact workerStep_number s outcome _
  | collect t => rfl
  | ownCall i => exact Thread.worker.inj (own_call_own now s i)

end

end Logger

namespace World

def numbers (w : World) : List Nat := w.members.map fun x => x.state.number

section

variable {w : World} {m : Nat}

theorem setMember_numbers {x y : Member} (hx : w.members[m]? = some x)
    (hnumber : y.state.number = x.state.number) : (w.setMember m y).numbers = w.numbers := by
  unfold numbers setMember
  refine List.ext_getElem? fun k => ?_
  rw [List.getElem?_map, List.getElem?_map, List.getElem?_set]
  split
  · subst k
    obtain ⟨hlt, hget⟩ := List.getElem?_eq_some_iff.mp hx
    simp [hlt, hget, hnumber]
  · rfl

theorem event_numbers (w : World) (m : Nat) (e : Logger.Event) :
    (w.event m e).numbers = w.numbers := by
  unfold event
  split
  · rfl
  · rename_i x hx
    exact setMember_numbers hx (Logger.next_number _ _ e)

theorem write_numbers (w : World) (m : Nat) (line : List CodePoint) :
    (w.write m line).1.numbers = w.numbers := by
  cases hx : w.members[m]? with
  | none => simp only [write, hx]
  | some x =>
    cases hd : x.destination with
    | outlet name =>
      simp only [write, hx, hd]
      split <;> rfl
    | file f =>
      simp only [write, hx, hd]
      exact setMember_numbers (w := { w with files := _ }) hx rfl
    | syslog s =>
      obtain ⟨looks, network, hwrite⟩ := write_syslog hx hd line
      rw [hwrite]
      rfl

theorem numbers_last : Lasting numbers :=
  ⟨fun _ _ => rfl, fun _ _ => rfl, fun _ _ => rfl, fun _ _ => rfl, event_numbers, write_numbers⟩

theorem collect_numbers (w : World) (m : Nat) (t : Thread) :
    (w.collect m t).1.numbers = w.numbers :=
  numbers_last.collect w m t

theorem turns_numbers (fuel : Nat) : Keeps numbers fuel := numbers_last.turns fuel

end

end World

end LeveledLog
