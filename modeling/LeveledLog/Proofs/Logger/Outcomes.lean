import LeveledLog.Proofs.Logger.Sync

/-!
How calls end. A call answers with a fault only if its own plan could not be made, or if a fault or
the end of the program is what it is for, and a call that waits for the worker never answers
anything but that it has waited. What happens at the destination shows in no answer.
-/

namespace LeveledLog

namespace Call

def Emits : Call → Prop
  | .leveled _ _ _ => True
  | .printf _ _ => True
  | .print _ => True
  | .output _ _ _ => True
  | .backtrace _ => True
  | _ => False

def EndsIn : Call → Ending → Prop
  | .sync, e => e = .value (.bool true)
  | .panic _ _, e => ∃ text, e = .fault (.panicked text)
  | .fatal _ _, e => ∃ streams, e = .exit streams
  | _, e => e = .value .none

instance (c : Call) : Decidable c.Emits := by
  cases c <;> simp only [Emits] <;> infer_instance

theorem Emits.endsIn {c : Call} (h : c.Emits) {e : Ending} (he : c.EndsIn e) :
    e = .value .none := by
  cases c <;> first | exact he | exact h.elim

end Call

namespace Logger

inductive Answers (i : Invocation) : Outcome → Prop where
  | refused {o now f looks} (failed : (Plan.make o now i).run.run 0 = (.error f, looks)) :
      Answers i (.raised f)
  | returned {v} (ends : i.call.EndsIn (.value v)) : Answers i (.returned v)
  | raised {f} (ends : i.call.EndsIn (.fault f)) : Answers i (.raised f)
  | exited {streams flushed} (ends : i.call.EndsIn (.exit streams)) :
      Answers i (.exited exitStatus flushed)
  | unflushed {streams k} (ends : i.call.EndsIn (.exit streams)) :
      Answers i (.raised (.scripted k))

/-- A stage of a call, and its answer at the last one. -/
def Serves (i : Invocation) : Progress → Prop
  | .idle => False
  | .deciding j l => j = i ∧ ∃ format args, i.call = .leveled l format args
  | .composing j => j = i
  | .handing _ ending _ => i.call.EndsIn ending
  | .sending _ _ ending _ => i.call.EndsIn ending
  | .awaiting _ _ ending _ => i.call.EndsIn ending
  | .flushing _ _ _ => ∃ streams, i.call.EndsIn (.exit streams)
  | .done outcome _ => Answers i outcome

def latest (t : Thread) (es : List (Stamp × Event)) : Option Invocation := (started t es).getLast?

section

variable {i : Invocation}

theorem plan_ending {o o' : Options} {now : Stamp} {p : Plan} {looks : Nat}
    (made : (Plan.make o now i).run.run 0 = (.ok (o', p), looks)) : i.call.EndsIn p.ending := by
  have ho : (Plan.make o now i).outcome = .ok (o', p) := by rw [Render.outcome, made]
  unfold Plan.make at ho
  cases hc : i.call <;> rw [hc] at ho
  case sync =>
    obtain ⟨-, rfl⟩ := Prod.mk.inj (Except.ok.inj ho)
    rfl
  case setPrefix =>
    obtain ⟨-, rfl⟩ := Prod.mk.inj (Except.ok.inj ho)
    rfl
  case panic | fatal =>
    obtain ⟨a, _, ha⟩ := Render.of_outcome_ok ho
    obtain ⟨-, rfl⟩ := Prod.mk.inj ha
    exact ⟨_, rfl⟩
  all_goals
    obtain ⟨a, _, ha⟩ := Render.of_outcome_ok ho
    obtain ⟨-, rfl⟩ := Prod.mk.inj ha
    rfl

theorem begin_serves (i : Invocation) : Serves i (begin i) := by
  rcases begin_cases i with ⟨h, _⟩ | ⟨l, f, a, h, hc⟩
  · rw [h]
    rfl
  · rw [h]
    exact ⟨rfl, f, a, hc⟩

theorem finish_serves {ending : Ending} (h : i.call.EndsIn ending) (looks : Nat) :
    Serves i (finish ending looks) := by
  cases ending with
  | value v => exact .returned h
  | fault f => exact .raised h
  | exit streams => exact ⟨streams, h⟩

theorem flushNext_serves {streams : List Stream} (h : i.call.EndsIn (.exit streams))
    (rest : List Stream) (flushed : List String) (looks : Nat) :
    Serves i (flushNext rest flushed looks) := by
  unfold flushNext
  split
  · exact .exited h
  · split
    · exact ⟨streams, h⟩
    · exact ⟨streams, h⟩
    · split
      · exact ⟨streams, h⟩
      · exact .unflushed h

theorem Advance.serves {now : Stamp} {s : State} {t : Thread} {e : Event} {p q : Progress}
    (ha : Advance now s t e p q) (h : Serves i p) : q = .idle ∨ Serves i q := by
  cases ha with
  | start => exact h.elim
  | collect => exact .inl rfl
  | drop low =>
    obtain ⟨_, format, args, hc⟩ := h
    refine .inr (.returned ?_)
    rw [hc]
    rfl
  | pass high => exact .inr h.1
  | compose made =>
    obtain rfl := h
    exact .inr (plan_ending made)
  | refuse failed =>
    obtain rfl := h
    exact .inr (.refused failed)
  | finish => exact .inr (finish_serves h _)
  | flushStream =>
    obtain ⟨streams, hends⟩ := h
    exact .inr (flushNext_serves hends _ _ _)
  | handLine | handBarrier | send | sentLine | sentBarrier | cross => exact .inr h

theorem begun_of_busy {now : Stamp} {s u : State} {e : Event} (hm : Move now s e u) {t : Thread}
    (h : s.callers t ≠ .idle) : begun t e = [] := by
  cases hm with
  | start other idle =>
    refine if_neg ?_
    rintro rfl
    exact h idle
  | _ => rfl

theorem move_idle {now : Stamp} {s u : State} {e : Event} (hm : Move now s e u) {t : Thread}
    (h : s.callers t = .idle) :
    (u.callers t = .idle ∧ begun t e = []) ∨
      ∃ i, begun t e = [i] ∧ u.callers t = begin i := by
  by_cases he : e.caller? = some t
  · have ha := move_advance hm he
    rw [h] at ha
    generalize u.callers t = q at ha ⊢
    cases ha with
    | @start i => exact .inr ⟨i, if_pos rfl, rfl⟩
  · rw [move_callers hm he]
    exact .inl ⟨h, begun_other he⟩

/-- There is nothing to wait with that could fail, so a call that waits answers nothing else. -/
theorem Answers.sync {outcome : Outcome} (h : Answers i outcome) (hc : i.call = .sync) :
    outcome = .returned (.bool true) := by
  cases h with
  | @refused o now f looks failed =>
    have made : (Plan.make o now i).run.run 0 =
        (.ok (o, ⟨[.barrier], .value (.bool true)⟩), 0) := by
      rw [Plan.make, hc]
      rfl
    rw [made] at failed
    cases failed
  | returned ends =>
    rw [hc] at ends
    obtain rfl := Ending.value.inj ends
    rfl
  | raised ends | exited ends | unflushed ends =>
    rw [hc] at ends
    cases ends

theorem Answers.emits {f : Fault} (h : Answers i (.raised f)) (hc : i.call.Emits) :
    ∃ o now, (Plan.make o now i).outcome = .error f := by
  cases h with
  | @refused o now f looks failed => exact ⟨o, now, by rw [Render.outcome, failed]⟩
  | raised ends | unflushed ends => cases hc.endsIn ends

end

section

variable {number : Nat} {mode : Mode} {o : Options} {es : List (Stamp × Event)}

/-- What holds of a call where it begins, and is kept with each step of its thread until the answer
is taken, holds of the latest call of each thread. -/
theorem latest_induction {P : Invocation → Progress → Prop} (base : ∀ i, P i (begin i))
    (busy : ∀ i, ¬P i .idle)
    (step : ∀ {i : Invocation} {now : Stamp} {s : State} {t : Thread} {e : Event}
      {p q : Progress}, Advance now s t e p q → P i p → q = .idle ∨ P i q)
    (h : machine.Valid (initial number mode o) es) (t : Thread) :
    (machine.after (initial number mode o) es).callers t = .idle ∨
      ∃ i, latest t es = some i ∧ P i ((machine.after (initial number mode o) es).callers t) := by
  induction es, h using Machine.run_induction with
  | nil => exact .inl rfl
  | snoc es e hes he ih =>
    have hm := machine_move he
    have hlatest : latest t (es ++ [e]) = (started t es ++ begun t e.2).getLast? := by
      simp [latest, started]
    rw [Machine.after_append, hlatest]
    rcases ih with idle | ⟨i, hi, hp⟩
    · rcases move_idle hm idle with ⟨hidle, _⟩ | ⟨i, hbegun, hbegin⟩
      · exact .inl hidle
      · refine .inr ⟨i, by simp [hbegun], ?_⟩
        exact hbegin ▸ base i
    · have hbusy : (machine.after (initial number mode o) es).callers t ≠ .idle := by
        intro hidle
        rw [hidle] at hp
        exact busy i hp
      rw [begun_of_busy hm hbusy, List.append_nil]
      by_cases ht : e.2.caller? = some t
      · rcases step (move_advance hm ht) hp with hidle | hnext
        · exact .inl hidle
        · exact .inr ⟨i, hi, hnext⟩
      · refine .inr ⟨i, hi, ?_⟩
        exact (move_callers hm ht).symm ▸ hp

theorem run_serves (h : machine.Valid (initial number mode o) es) (t : Thread) :
    (machine.after (initial number mode o) es).callers t = .idle ∨
      ∃ i, latest t es = some i ∧ Serves i ((machine.after (initial number mode o) es).callers t) :=
  latest_induction begin_serves (fun _ h => h) (fun ha h => ha.serves h) h t

/-- The answer that a thread finds is one of its latest call. -/
theorem run_answers (h : machine.Valid (initial number mode o) es) {t : Thread} {i : Invocation}
    (hlatest : latest t es = some i) {outcome : Outcome} {looks : Nat}
    (ends : (machine.after (initial number mode o) es).callers t = .done outcome looks) :
    Answers i outcome := by
  rcases run_serves h t with idle | ⟨j, hj, hserves⟩
  · rw [ends] at idle
    cases idle
  · obtain rfl : i = j := Option.some.inj (hlatest.symm.trans hj)
    rw [ends] at hserves
    exact hserves

end

end Logger

end LeveledLog
