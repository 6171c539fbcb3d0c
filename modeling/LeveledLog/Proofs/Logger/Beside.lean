import LeveledLog.Proofs.Logger.Moves

/-!
What the callers of a logger have nothing to do with: which phase the worker is in, what it has
reported, and how the worker's own calls have ended. An event of a caller neither depends on these
nor changes them, so two runs that differ in nothing else look the same to every caller.
-/

namespace LeveledLog.Logger

/-- The same state with another phase of the worker, other reports and other outcomes of the
worker's own calls. -/
def State.beside (s : State) (w : WorkerPhase) (ds : List Diagnostic) (os : List Outcome) : State :=
  { s with worker := w, diagnostics := ds, ownOutcomes := os }

section

variable (s : State) (w : WorkerPhase) (ds : List Diagnostic) (os : List Outcome)

@[simp] theorem beside_options : (s.beside w ds os).options = s.options := rfl
@[simp] theorem beside_channel : (s.beside w ds os).channel = s.channel := rfl
@[simp] theorem beside_callers : (s.beside w ds os).callers = s.callers := rfl
@[simp] theorem beside_released : (s.beside w ds os).released = s.released := rfl
@[simp] theorem beside_attempts : (s.beside w ds os).attempts = s.attempts := rfl
@[simp] theorem beside_worker : (s.beside w ds os).worker = w := rfl
@[simp] theorem beside_diagnostics : (s.beside w ds os).diagnostics = ds := rfl
@[simp] theorem beside_outcomes : (s.beside w ds os).ownOutcomes = os := rfl

theorem enabled_beside {e : Event} {t : Thread} (he : e.caller? = some t) :
    Enabled (s.beside w ds os) e ↔ Enabled s e := by
  cases e with
  | caller q =>
    simp only [Enabled, beside_callers]
    cases s.callers q <;> rfl
  | start | collect => rfl
  | worker | ownCall => cases he

theorem caller_step_beside (now : Stamp) (t : Thread) (p : Progress) :
    callerStep (s.beside w ds os) now t p = (callerStep s now t p).beside w ds os := by
  cases p with
  | deciding i l =>
    by_cases high : s.options.loggable l.priority
    · simp only [callerStep, beside_options, high, ↓reduceIte]
      rfl
    · simp only [callerStep, beside_options, high]
      rfl
  | composing i =>
    simp only [callerStep, compose, beside_options]
    rcases (Plan.make s.options now i).run.run 0 with ⟨_ | made, looks⟩ <;> rfl
  | handing tasks ending looks =>
    cases tasks with
    | nil => rfl
    | cons task rest => cases task <;> rfl
  | sending wait tasks ending looks =>
    by_cases rest : ((Handoff.next s.channel (.step t)).phase t).AtRest
    · simp only [callerStep, sendOn, beside_channel, rest, ↓reduceIte]
      cases wait <;> rfl
    · simp only [callerStep, sendOn, beside_channel, rest, ↓reduceIte]
      rfl
  | idle | awaiting | flushing | done => rfl

theorem next_beside (now : Stamp) {e : Event} {t : Thread} (he : e.caller? = some t) :
    next now (s.beside w ds os) e = (next now s e).beside w ds os := by
  cases e with
  | caller q => exact caller_step_beside s w ds os now q (s.callers q)
  | start | collect => rfl
  | worker | ownCall => cases he

theorem next_caller_self (now : Stamp) {e : Event} {t : Thread} (he : e.caller? = some t) :
    next now s e = (next now s e).beside s.worker s.diagnostics s.ownOutcomes :=
  next_beside s s.worker s.diagnostics s.ownOutcomes now he

theorem own_call_beside (now : Stamp) (i : Invocation) :
    ownCall (s.beside w ds os) now i =
      ((ownCall s now i).1.beside w ds os, (ownCall s now i).2) := by
  unfold ownCall
  simp only [beside_options]
  split_ifs with dropped
  · exact if_pos dropped
  · refine (if_neg dropped).trans ?_
    rcases (Plan.make s.options now i).run.run 0 with ⟨_ | made, looks⟩ <;> rfl

end

end LeveledLog.Logger
