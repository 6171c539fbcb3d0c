import LeveledLog.Proofs.Logger.Merge
import LeveledLog.Proofs.Logger.Results

/-!
What the call of one thread is to the rest. No event of another thread or of the worker looks at how
far a call has come, so events that a call has no part in happen alike whether it goes on or not.
-/

namespace LeveledLog.Logger

def State.hush (h : Thread → Bool) (s : State) : State :=
  { s with callers := fun t => if h t then .idle else s.callers t }

section

variable {h : Thread → Bool} {t : Thread}

theorem hush_caller (s : State) (ht : h t = false) : (s.hush h).callers t = s.callers t := by
  simp [State.hush, ht]

theorem hush_set (s : State) (p : Progress) (ht : h t = false) :
    (s.hush h).set t p = (s.set t p).hush h := by
  have hcallers : update (s.hush h).callers t p =
      fun q => if h q then Progress.idle else update s.callers t p q := by
    funext q
    by_cases hq : q = t
    · subst hq
      rw [update_same, update_same, ht]
      rfl
    · rw [update_other _ _ hq, update_other _ _ hq]
      rfl
  exact congrArg (fun callers => { s with callers }) hcallers

/-- What a hidden call does to itself does not show. -/
theorem set_hushed (s : State) (p : Progress) (ht : h t = true) :
    (s.set t p).hush h = s.hush h := by
  have hcallers : (fun q => if h q then Progress.idle else update s.callers t p q) =
      fun q => if h q then Progress.idle else s.callers q := by
    funext q
    by_cases hq : q = t
    · subst hq
      rw [ht]
      rfl
    · rw [update_other _ _ hq]
  exact congrArg (fun callers => { s with callers }) hcallers

theorem hush_initial (h : Thread → Bool) (number : Nat) (mode : Mode) (o : Options) :
    (initial number mode o).hush h = initial number mode o := by
  have hcallers : (fun q => if h q then Progress.idle else Progress.idle) =
      fun _ : Thread => Progress.idle := by
    funext q
    exact ite_self _
  exact congrArg (fun callers => { initial number mode o with callers }) hcallers

theorem hush_callerStep (s : State) (now : Stamp) (p : Progress) (ht : h t = false) :
    callerStep (s.hush h) now t p = (callerStep s now t p).hush h := by
  cases p with
  | idle | done => rfl
  | deciding i l =>
    by_cases hpasses : s.options.loggable l.priority = true
    · have hhush : (s.hush h).options.loggable l.priority = true := hpasses
      simp only [callerStep, hpasses, hhush, if_true]
      exact hush_set s _ ht
    · have hhush : ¬(s.hush h).options.loggable l.priority = true := hpasses
      simp only [callerStep, if_neg hpasses, if_neg hhush]
      exact hush_set s _ ht
  | composing i =>
    have hoptions : (s.hush h).options = s.options := rfl
    rw [callerStep, callerStep, compose, compose, hoptions]
    split
    · exact hush_set { s with options := _ } _ ht
    · exact hush_set s _ ht
  | handing tasks ending looks =>
    cases tasks with
    | nil => exact hush_set s _ ht
    | cons task rest =>
      cases task with
      | line l =>
        exact hush_set { s with channel := Handoff.next s.channel (.send t (.line l)) } _ ht
      | barrier =>
        exact hush_set { s with
          channel := Handoff.next s.channel (.send t (.barrier s.barriers))
          barriers := s.barriers + 1 } _ ht
  | sending wait tasks ending looks =>
    let u : State := { s with channel := Handoff.next s.channel (.step t) }
    have hsent (p : Progress) :
        (if (u.channel.phase t).AtRest then (u.hush h).set t p else u.hush h) =
          State.hush h (if (u.channel.phase t).AtRest then u.set t p else u) := by
      rw [apply_ite (State.hush h), hush_set u p ht]
    cases wait with
    | none => exact hsent (.handing tasks ending looks)
    | some b => exact hsent (.awaiting b tasks ending looks)
  | awaiting b tasks ending looks => exact hush_set s _ ht
  | flushing streams flushed looks => exact hush_set s _ ht

theorem hush_workerStep (h : Thread → Bool) (s : State) (outcome : Option Fault)
    (p : WorkerPhase) : workerStep (s.hush h) outcome p = (workerStep s outcome p).hush h := by
  cases p with
  | reporting d => rfl
  | receiving =>
    have hphase : (s.hush h).channel.phase (s.hush h).own = s.channel.phase s.own := rfl
    rw [workerStep, workerStep, hphase]
    split
    · rfl
    · rw [apply_ite (State.hush h)]
      rfl
    · rfl
  | writing l | flushing l =>
    cases outcome with
    | none => rfl
    | some f =>
      rw [workerStep, workerStep, fail, fail, apply_ite (State.hush h)]
      rfl
  | ended lost => rfl

theorem hush_ownCall (h : Thread → Bool) (s : State) (now : Stamp) (i : Invocation) :
    ownCall (s.hush h) now i =
      ((ownCall s now i).1.hush h, (ownCall s now i).2.1, (ownCall s now i).2.2) := by
  have hoptions : (s.hush h).options = s.options := rfl
  unfold ownCall
  rw [hoptions]
  extract_lets dropped
  split
  · rfl
  · split
    · rfl
    · rfl

/-- Calls that are hidden make no difference to what others do. -/
theorem hush_next (now : Stamp) (s : State) {e : Event}
    (he : ∀ t, e.caller? = some t → h t = false) :
    next now (s.hush h) e = (next now s e).hush h := by
  cases e with
  | start t i => exact hush_set s _ (he t rfl)
  | caller t =>
    rw [next, next, hush_caller s (he t rfl)]
    exact hush_callerStep s now _ (he t rfl)
  | collect t => exact hush_set s _ (he t rfl)
  | worker outcome => exact hush_workerStep h s outcome s.worker
  | ownCall i =>
    simp only [next, hush_ownCall]
    rfl

theorem hush_enabled (s : State) {e : Event} (he : ∀ t, e.caller? = some t → h t = false) :
    Enabled (s.hush h) e ↔ Enabled s e := by
  cases e with
  | start t i =>
    simp only [Enabled, hush_caller s (he t rfl)]
    rfl
  | caller t =>
    simp only [Enabled, hush_caller s (he t rfl)]
    cases s.callers t <;> exact Iff.rfl
  | collect t => simp only [Enabled, hush_caller s (he t rfl)]
  | worker outcome => exact Iff.rfl
  | ownCall i => exact Iff.rfl

end

def others (t : Thread) (es : List (Stamp × Event)) : List (Stamp × Event) :=
  es.filter fun e => e.2.caller? ≠ some t

def told (s : State) (e : Stamp × Event) : List (Thread × Outcome) :=
  match e.2 with
  | .collect q =>
    match s.callers q with
    | .done outcome _ => [(q, outcome)]
    | _ => []
  | _ => []

section

variable {now : Stamp} {s : State} {e : Event} {t r : Thread} {p q : Progress}

theorem set_set (s : State) (t : Thread) (p q : Progress) : (s.set t p).set t q = s.set t q :=
  congrArg (fun callers => { s with callers }) (update_update _ _ _ _)

theorem set_self (h : s.callers t = p) : s.set t p = s :=
  congrArg (fun callers => { s with callers }) (update_eq_self h)

/-- What a call was does not matter once it is something else. -/
theorem set_hush (s : State) (t : Thread) (p : Progress) :
    (s.hush (· = t)).set t p = s.set t p := by
  have hcallers : update (s.hush (· = t)).callers t p = update s.callers t p := by
    funext q
    by_cases hq : q = t
    · rw [hq, update_same, update_same]
    · rw [update_other _ _ hq, update_other _ _ hq]
      exact hush_caller s (decide_eq_false hq)
  exact congrArg (fun callers => { s with callers }) hcallers

theorem not_hidden (he : e.caller? ≠ some t) (q : Thread) (hq : e.caller? = some q) :
    decide (q = t) = false := by
  refine decide_eq_false ?_
  rintro rfl
  exact he hq

theorem enabled_apart (s : State) (p : Progress) (he : e.caller? ≠ some t) :
    Enabled (s.set t p) e ↔ Enabled s e := by
  rw [← hush_enabled s (not_hidden he), ← hush_enabled (s.set t p) (not_hidden he),
    set_hushed s p (decide_eq_true rfl)]

theorem callerStep_other (h : t ≠ r) (p : Progress) :
    (callerStep s now r p).callers t = s.callers t := by
  have hset (u : State) (q : Progress) : (u.set r q).callers t = u.callers t :=
    update_other _ _ h
  cases p with
  | idle | done => rfl
  | deciding i l =>
    rw [callerStep]
    split <;> exact hset s _
  | composing i =>
    rw [callerStep, compose]
    split
    · exact hset { s with options := _ } _
    · exact hset s _
  | handing tasks ending looks =>
    cases tasks with
    | nil => exact hset s _
    | cons task rest => cases task <;> exact hset { s with channel := _, barriers := _ } _
  | sending wait tasks ending looks =>
    let u : State := { s with channel := Handoff.next s.channel (.step r) }
    have hsent (q : Progress) :
        (if (u.channel.phase r).AtRest then u.set r q else u).callers t = s.callers t := by
      split
      · exact hset u q
      · rfl
    cases wait with
    | none => exact hsent (.handing tasks ending looks)
    | some b => exact hsent (.awaiting b tasks ending looks)
  | awaiting b tasks ending looks => exact hset s _
  | flushing streams flushed looks => exact hset s _

theorem workerStep_callers (s : State) (outcome : Option Fault) (p : WorkerPhase) :
    (workerStep s outcome p).callers = s.callers := by
  cases p with
  | reporting d => rfl
  | receiving =>
    rw [workerStep]
    split
    · rfl
    · exact (apply_ite State.callers _ _ _).trans (ite_self _)
    · rfl
  | writing l | flushing l =>
    cases outcome with
    | none => rfl
    | some f => exact (apply_ite State.callers _ _ _).trans (ite_self _)
  | ended lost => rfl

theorem ownCall_callers (s : State) (now : Stamp) (i : Invocation) :
    (ownCall s now i).1.callers = s.callers := by
  unfold ownCall
  extract_lets dropped
  split
  · rfl
  · split <;> rfl

theorem next_callers (now : Stamp) (s : State) (he : e.caller? ≠ some t) :
    (next now s e).callers t = s.callers t := by
  have hother : ∀ r, e.caller? = some r → t ≠ r := by
    rintro r hr rfl
    exact he hr
  cases e with
  | start r i => exact update_other _ _ (hother r rfl)
  | caller r => exact callerStep_other (hother r rfl) _
  | collect r => exact update_other _ _ (hother r rfl)
  | worker outcome => exact congrFun (workerStep_callers s outcome _) t
  | ownCall i => exact congrFun (ownCall_callers s now i) t

/-- An event that a thread has no part in does the same however far the call of the thread is. -/
theorem next_apart (p : Progress) (he : e.caller? ≠ some t) :
    next now (s.set t p) e = (next now s e).set t p := by
  have hcaller : (next now (s.set t p) e).callers t = p := by
    rw [next_callers now _ he, set_callers, update_same]
  calc
    next now (s.set t p) e = (next now (s.set t p) e).set t p := (set_self hcaller).symm
    _ = ((next now (s.set t p) e).hush (· = t)).set t p := (set_hush _ _ _).symm
    _ = (next now (s.hush (· = t)) e).set t p := by
      rw [← hush_next now _ (not_hidden he), set_hushed s p (decide_eq_true rfl)]
    _ = (next now s e).set t p := by rw [hush_next now s (not_hidden he), set_hush]

theorem ended_apart (s : State) (t : Thread) (p : Progress) (e : Stamp × Event) :
    ended (s.set t p) e = ended s e := rfl

theorem told_apart (s : State) (p : Progress) (he : e.caller? ≠ some t) :
    told (s.set t p) (now, e) = told s (now, e) := by
  cases e with
  | collect q =>
    have hq : q ≠ t := fun h => he (congrArg some h)
    simp only [told, set_callers, update_other _ _ hq]
  | _ => rfl

end

/-- Two runs in which the same has become of the lines, and after which the same may happen, with
the same effects and the same answers. -/
structure Meet (s : State) (es ds : List (Stamp × Event)) : Prop where
  valid : ∀ rest, machine.Valid s (es ++ rest) ↔ machine.Valid s (ds ++ rest)
  after : ∀ rest, machine.after s (es ++ rest) = machine.after s (ds ++ rest)
  results : ∀ rest, results s (es ++ rest) = results s (ds ++ rest)
  told : ∀ rest, ∃ later,
    machine.history told s (es ++ rest) = machine.history told s es ++ later ∧
      machine.history told s (ds ++ rest) = machine.history told s ds ++ later

theorem Meet.of_after {s : State} {es ds : List (Stamp × Event)} (hes : machine.Valid s es)
    (hds : machine.Valid s ds) (meet : machine.after s es = machine.after s ds)
    (same : Logger.results s es = Logger.results s ds) : Meet s es ds := by
  refine ⟨fun rest => ?_, fun rest => ?_, fun rest => ?_, fun rest => ?_⟩
  · rw [machine.valid_append, machine.valid_append, meet, and_iff_right hes, and_iff_right hds]
  · rw [machine.after_append, machine.after_append, meet]
  · rw [Logger.results, Logger.results, machine.history_append, machine.history_append, meet]
    exact congrArg (· ++ _) same
  · refine ⟨machine.history Logger.told (machine.after s es) rest, machine.history_append _ _ _ _,
      ?_⟩
    rw [machine.history_append, meet]

end LeveledLog.Logger
