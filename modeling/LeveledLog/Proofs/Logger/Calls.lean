import LeveledLog.Proofs.Logger.Barriers
import LeveledLog.Proofs.Logger.Direct

/-!
What the calls of a thread come to. The lines that a thread has handed off, and those that it is
still going to hand off, are the lines of its calls in order, each of the options and the clock at
one moment of its call. A line has left its thread here, and need not have been written.
-/

namespace LeveledLog

namespace Progress

def pending : Progress → List Invocation
  | .deciding i _ => [i]
  | .composing i => [i]
  | _ => []

def linesLeft : Progress → List (List CodePoint)
  | .handing tasks _ _ => tasks.filterMap Task.line?
  | .sending _ tasks _ _ => tasks.filterMap Task.line?
  | .awaiting _ tasks _ _ => tasks.filterMap Task.line?
  | _ => []

end Progress

namespace Logger

def begun (t : Thread) : Event → List Invocation
  | .start q i => if q = t then [i] else []
  | _ => []

def carriedOut (t : Thread) (s : State) (e : Stamp × Event) : List (Stamp × Invocation) :=
  atStep t s e.2 fun
    | .deciding i l => if s.options.loggable l.priority then [] else [(e.1, i)]
    | .composing i => [(e.1, i)]
    | _ => []

def emits (t : Thread) (s : State) (e : Stamp × Event) : List (List CodePoint) :=
  atStep t s e.2 fun
    | .composing i => Direct.emitted s.options.flags e.1 i
    | _ => []

def started (t : Thread) (es : List (Stamp × Event)) : List Invocation :=
  es.flatMap fun e => begun t e.2

def performed (t : Thread) (s : State) (es : List (Stamp × Event)) : List (Stamp × Invocation) :=
  machine.history (carriedOut t) s es

def lines (t : Thread) (s : State) (es : List (Stamp × Event)) : List (List CodePoint) :=
  machine.history (emits t) s es

/-- The lines that a thread has handed off or is going to hand off. -/
def State.issued (s : State) (t : Thread) : List (List CodePoint) :=
  (s.channel.offered t).filterMap Parcel.line? ++ (s.callers t).linesLeft

theorem plan_of_made {o o' : Options} {now : Stamp} {i : Invocation} {p : Plan} {looks : Nat}
    (made : (Plan.make o now i).run.run 0 = (.ok (o', p), looks)) :
    p.lines = Direct.emitted o.flags now i ∧ o' = Direct.settings o i := by
  have hf := Direct.make_fits o now i
  rwa [Render.outcome, made] at hf

theorem plan_of_refused {o : Options} {now : Stamp} {i : Invocation} {f : Fault} {looks : Nat}
    (failed : (Plan.make o now i).run.run 0 = (.error f, looks)) :
    Direct.emitted o.flags now i = [] ∧ Direct.settings o i = o := by
  have hf := Direct.make_fits o now i
  rwa [Render.outcome, failed] at hf

section

variable {now : Stamp} {s u : State} {e : Event} {t : Thread}

theorem begin_pending (i : Invocation) : (begin i).pending = [i] := by
  rcases begin_cases i with ⟨h, _⟩ | ⟨l, _, _, h, _⟩ <;> rw [h] <;> rfl

theorem begin_linesLeft (i : Invocation) : (begin i).linesLeft = [] := by
  rcases begin_cases i with ⟨h, _⟩ | ⟨l, _, _, h, _⟩ <;> rw [h] <;> rfl

theorem Spent.pending_eq {p : Progress} (h : Spent p) : p.pending = [] := by
  cases p <;> first | rfl | exact h.elim

theorem Spent.linesLeft_eq {p : Progress} (h : Spent p) : p.linesLeft = [] := by
  cases p <;> first | rfl | exact h.elim

theorem begun_other (he : e.caller? ≠ some t) : begun t e = [] := by
  cases e with
  | start q i =>
    have hq : q ≠ t := fun h => he (congrArg some h)
    simp [begun, hq]
  | _ => rfl

theorem nothing_carried (h : (s.callers t).pending = []) :
    carriedOut t s (now, e) = [] ∧ emits t s (now, e) = [] := by
  cases e with
  | caller q =>
    by_cases hq : q = t
    · subst q
      cases hp : s.callers t <;> simp_all [carriedOut, emits, atStep, Progress.pending]
    · simp [carriedOut, emits, atStep, hq]
  | _ => exact ⟨rfl, rfl⟩

theorem move_calls (hm : Move now s e u) (t : Thread) :
    (carriedOut t s (now, e)).map Prod.snd ++ (u.callers t).pending =
      (s.callers t).pending ++ begun t e := by
  by_cases he : e.caller? = some t
  · cases hm with
    | start other idle =>
      obtain rfl := Option.some.inj he
      rw [set_callers, update_same, begin_pending, idle]
      simp [carriedOut, atStep, begun, Progress.pending]
    | finish w =>
      obtain rfl := Option.some.inj he
      rw [set_callers, update_same, (finish_spent _ _).pending_eq, w]
      simp [carriedOut, atStep, begun, w, Progress.pending]
    | flushStream w =>
      obtain rfl := Option.some.inj he
      rw [set_callers, update_same, (flushNext_spent _ _ _).pending_eq, w]
      simp [carriedOut, atStep, begun, w, Progress.pending]
    | collect w | drop w | pass w | compose w | refuse w | handLine w | handBarrier w | send w
    | sentLine w | sentBarrier w | cross w =>
      obtain rfl := Option.some.inj he
      simp_all [carriedOut, atStep, begun, Progress.pending]
    | _ => exact absurd he (by simp [Event.caller?])
  · rw [carriedOut, atStep_other he, begun_other he, move_callers hm he]
    simp

theorem move_issued (hm : Move now s e u) (hs : Sound s) (t : Thread) :
    u.issued t = s.issued t ++ emits t s (now, e) := by
  simp only [State.issued, move_offered hm hs t, List.filterMap_append, List.append_assoc]
  congr 1
  by_cases he : e.caller? = some t
  · cases hm with
    | start other idle =>
      obtain rfl := Option.some.inj he
      rw [set_callers, update_same, begin_linesLeft, idle]
      rfl
    | finish w =>
      obtain rfl := Option.some.inj he
      rw [set_callers, update_same, (finish_spent _ _).linesLeft_eq, w]
      simp [handed, emits, atStep, w, Progress.linesLeft]
    | flushStream w =>
      obtain rfl := Option.some.inj he
      rw [set_callers, update_same, (flushNext_spent _ _ _).linesLeft_eq, w]
      simp [handed, emits, atStep, w, Progress.linesLeft]
    | @compose t i o p looks w made =>
      obtain rfl := Option.some.inj he
      rw [set_callers, update_same, w]
      simp only [handed, emits, atStep, w, if_true]
      exact (plan_of_made made).1
    | @refuse t i f looks w failed =>
      obtain rfl := Option.some.inj he
      rw [set_callers, update_same, w]
      simp only [handed, emits, atStep, w, if_true]
      exact (plan_of_refused failed).1.symm
    | collect w | drop w | pass w | handLine w | handBarrier w | send w
    | sentLine w | sentBarrier w | cross w =>
      obtain rfl := Option.some.inj he
      simp [handed, emits, atStep, w, Progress.linesLeft, Parcel.line?, Task.line?,
        List.filterMap_cons]
    | _ => exact absurd he (by simp [Event.caller?])
  · rw [handed, emits, atStep_other he, atStep_other he, move_callers hm he]
    simp

end

section

variable {number : Nat} {mode : Mode} {o : Options} {es : List (Stamp × Event)}

theorem run_calls (h : machine.Valid (initial number mode o) es) (t : Thread) :
    (performed t (initial number mode o) es).map Prod.snd ++
      ((machine.after (initial number mode o) es).callers t).pending = started t es := by
  induction es, h using Machine.run_induction with
  | nil => rfl
  | snoc es e hes he ih =>
    have hstep := move_calls (machine_move he) t
    simp only [performed, started, Machine.history_append, Machine.after_append,
      List.flatMap_append, List.map_append, List.append_assoc] at ih ⊢
    rw [← ih]
    simpa [Machine.history, Machine.after, machine] using hstep

theorem run_issued (h : machine.Valid (initial number mode o) es) (t : Thread) :
    (machine.after (initial number mode o) es).issued t = lines t (initial number mode o) es := by
  refine Machine.history_induction (I := fun s past => s.issued t = past) rfl ?_ h
  intro es e hes he ih
  rw [← ih]
  exact move_issued (machine_move he) (reachable_sound (reachable_of_valid hes)) t

theorem run_silent {s : State} (hr : Reachable s) (h : machine.Valid s es) {t : Thread}
    (made : (s.callers t).pending = []) (quiet : started t es = []) :
    (machine.after s es).issued t = s.issued t ∧
      ((machine.after s es).callers t).pending = [] := by
  induction es, h using Machine.run_induction with
  | nil => exact ⟨rfl, made⟩
  | snoc es e hes he ih =>
    have hnone : started t es = [] ∧ begun t e.2 = [] := by simpa [started] using quiet
    obtain ⟨hissued, hpending⟩ := ih hnone.1
    have hm := machine_move he
    have hcalls := move_calls hm t
    rw [hpending, hnone.2, List.append_nil] at hcalls
    rw [Machine.after_append]
    refine ⟨?_, (List.append_eq_nil_iff.mp hcalls).2⟩
    rw [← hissued]
    refine (move_issued hm (reachable_sound (hr.run hes)) t).trans ?_
    rw [(nothing_carried hpending).2, List.append_nil]

section

variable {before during : List (Stamp × Event)} {n : Stamp} {t : Thread} {i : Invocation}

/-- What holds where a call begins, and is kept from then on at each event, as long as the thread
begins no other call. -/
theorem since_induction {P : List (Stamp × Event) → Prop}
    (h : machine.Valid (initial number mode o) (before ++ (n, .start t i) :: during))
    (quiet : started t during = [])
    (base : machine.Valid (initial number mode o) (before ++ [(n, .start t i)]) → P [])
    (step : ∀ past e, machine.Valid (initial number mode o) (before ++ (n, .start t i) :: past) →
      machine.Enabled
        (machine.after (initial number mode o) (before ++ (n, .start t i) :: past)) e →
      begun t e.2 = [] → P past → P (past ++ [e])) : P during := by
  induction during using List.reverseRecOn with
  | nil => exact base h
  | append_singleton past e ih =>
    have hnone : started t past = [] ∧ begun t e.2 = [] := by simpa [started] using quiet
    rw [Machine.snoc_since] at h
    obtain ⟨hpast, he⟩ := Machine.valid_snoc.mp h
    exact step past e hpast he hnone.2 (ih hpast hnone.1)

/-- The same for what is said of the state that each event leads to. -/
theorem call_induction {P : List (Stamp × Event) → State → Prop}
    (h : machine.Valid (initial number mode o) (before ++ (n, .start t i) :: during))
    (quiet : started t during = [])
    (base : P [] (machine.next (machine.after (initial number mode o) before) (n, .start t i)))
    (step : ∀ past e,
      let s := machine.after (initial number mode o) (before ++ (n, .start t i) :: past)
      Reachable s → Move e.1 s e.2 (machine.next s e) → begun t e.2 = [] → P past s →
        P (past ++ [e]) (machine.next s e)) :
    P during (machine.after (initial number mode o) (before ++ (n, .start t i) :: during)) := by
  refine since_induction h quiet (P := fun past => P past
    (machine.after (initial number mode o) (before ++ (n, .start t i) :: past))) ?_ ?_
  · intro _
    rw [Machine.after_snoc]
    exact base
  · intro past e hpast he hbegun hholds
    rw [Machine.after_since]
    exact step past e (reachable_of_valid hpast) (machine_move he) hbegun hholds

end

theorem run_idle (h : machine.Valid (initial number mode o) es) {t : Thread}
    (away : ∀ e ∈ es, e.2.caller? ≠ some t) :
    (machine.after (initial number mode o) es).callers t = .idle := by
  induction es, h using Machine.run_induction with
  | nil => rfl
  | snoc es e hes he ih =>
    have hlast := move_callers (machine_move he) (away e (by simp))
    rw [Machine.after_append]
    exact hlast.trans (ih fun e' he' => away e' (List.mem_append_left _ he'))

end

end Logger

end LeveledLog
