import LeveledLog.Proofs.Logger.Apart
import LeveledLog.Proofs.Logger.Formatting
import LeveledLog.Proofs.Logger.OwnCalls

/-!
Calls that raise. A fault comes out of an emitting call only as long as there is no plan for it, and
until then the call has looked at the options and done nothing. So all that happens beside it and
after it is what would have happened without it. A call that is to raise, or to end the program, is
meant here only when its message cannot be rendered.
-/

namespace LeveledLog

/-- A call out of which a fault comes only if there is no plan for it. -/
def Invocation.FailsEarly (i : Invocation) : Prop :=
  match i.call with
  | .panic format args => ∃ f, (message i.host.room format args).outcome = .error f
  | .fatal format args => ∃ f, (message i.host.room format args).outcome = .error f
  | c => c.Emits

theorem Invocation.FailsEarly.settings {i : Invocation} (h : i.FailsEarly) (o : Options) :
    Direct.settings o i = o := by
  unfold Invocation.FailsEarly at h
  unfold Direct.settings Direct.assigned
  cases hc : i.call with
  | sync | setPriority | setFlags | setPrefix =>
    rw [hc] at h
    exact h.elim
  | _ => rfl

namespace Logger

def ReturnsPlanned (i : Invocation) : Prop :=
  ∀ {o o' : Options} {now : Stamp} {plan : Plan} {looks : Nat},
    (Plan.make o now i).run.run 0 = (.ok (o', plan), looks) → plan.ending = .value .none

def Returns (i : Invocation) : Progress → Prop
  | .deciding j _ => j = i
  | .composing j => j = i
  | .handing _ ending _ => ending = .value .none
  | .sending _ _ ending _ => ending = .value .none
  | .awaiting _ _ ending _ => ending = .value .none
  | .flushing _ _ _ => False
  | _ => True

def Unplanned : Progress → Prop
  | .deciding _ _ => True
  | .composing _ => True
  | .done outcome _ => ∃ f, outcome = .raised f
  | _ => False

section

variable {now : Stamp} {s u : State} {e : Event} {t : Thread} {p q : Progress} {i : Invocation}

theorem planned_returns (early : i.FailsEarly) : ReturnsPlanned i := by
  intro o o' now plan looks made
  have hends := plan_ending made
  unfold Invocation.FailsEarly at early
  cases hc : i.call with
  | panic format args | fatal format args =>
    rw [hc] at early
    obtain ⟨f, fails⟩ := early
    obtain ⟨m, renders⟩ := message_of_made (by rw [hc]; rfl) made
    rw [renders] at fails
    cases fails
  | leveled | printf | print | output | backtrace =>
    rw [hc] at hends
    exact hends
  | sync | setPriority | setFlags | setPrefix =>
    rw [hc] at early
    exact early.elim

theorem Advance.returns (ha : Advance now s t e p q) (he : begun t e = [])
    (planned : ReturnsPlanned i) (h : Returns i p) : Returns i q := by
  cases ha with
  | start => simp [begun] at he
  | collect | drop | refuse => trivial
  | pass => exact h
  | compose made =>
    obtain rfl := h
    exact planned made
  | finish =>
    obtain rfl := h
    trivial
  | flushStream => exact h.elim
  | handLine | handBarrier | send | sentLine | sentBarrier | cross => exact h

theorem move_returns (hm : Move now s e u) (he : begun t e = []) (planned : ReturnsPlanned i)
    (h : Returns i (s.callers t)) : Returns i (u.callers t) := by
  by_cases ht : e.caller? = some t
  · exact (move_advance hm ht).returns he planned h
  · rw [move_callers hm ht]
    exact h

/-- A step that comes to no plan began without one, and changes nothing but how far the call is. -/
theorem move_unplanned (hm : Move now s e u) (ht : e.caller? = some t) (he : begun t e = [])
    (h : Returns i (s.callers t)) (unplanned : Unplanned (u.callers t)) :
    e = .caller t ∧ Unplanned (s.callers t) ∧ u = s.set t (u.callers t) := by
  cases hm with
  | start =>
    obtain rfl := Option.some.inj ht
    simp [begun] at he
  | drop =>
    obtain rfl := Option.some.inj ht
    rw [set_callers, update_same] at unplanned
    obtain ⟨f, hf⟩ := unplanned
    cases hf
  | collect | compose | handLine | handBarrier | sentLine | sentBarrier | cross =>
    obtain rfl := Option.some.inj ht
    rw [set_callers, update_same] at unplanned
    exact unplanned.elim
  | pass w | refuse w =>
    obtain rfl := Option.some.inj ht
    rw [w, set_callers, update_same]
    exact ⟨rfl, trivial, rfl⟩
  | finish w =>
    obtain rfl := Option.some.inj ht
    rw [w] at h
    obtain rfl := h
    rw [set_callers, update_same] at unplanned
    obtain ⟨f, hf⟩ := unplanned
    cases hf
  | send w =>
    obtain rfl := Option.some.inj ht
    rw [w] at unplanned
    exact unplanned.elim
  | flushStream w =>
    obtain rfl := Option.some.inj ht
    rw [w] at h
    exact h.elim
  | _ => cases ht

theorem unplanned_lines (h : Unplanned p) : p.linesLeft = [] := by
  cases p with
  | deciding | composing | done => rfl
  | _ => exact h.elim

end

/-- What the events of a call have come to that has no plan, when `past` has happened since it
began. -/
structure InVain (number : Nat) (mode : Mode) (o : Options) (before : List (Stamp × Event))
    (n : Stamp) (t : Thread) (i : Invocation) (past : List (Stamp × Event)) : Prop where
  /-- At none of its events has the call changed anything but how far it is. -/
  own : ∀ d e rest, past = d ++ e :: rest → e.2.caller? = some t →
    let s := machine.after (initial number mode o) (before ++ (n, .start t i) :: d)
    ∃ p, machine.next s e = s.set t p
  silent : (machine.after (initial number mode o) (before ++ (n, .start t i) :: past)).issued t =
    (machine.after (initial number mode o) before).issued t
  /-- The run without the call ends in the same state, but that there is no call. -/
  without : machine.Valid (initial number mode o) (before ++ others t past) ∧
    machine.after (initial number mode o) (before ++ others t past) =
      (machine.after (initial number mode o) (before ++ (n, .start t i) :: past)).set t .idle
  /-- The same has become of the lines, and the others have been told the same. -/
  same : results (initial number mode o) (before ++ others t past) =
      results (initial number mode o) (before ++ (n, .start t i) :: past) ∧
    machine.history told (initial number mode o) (before ++ others t past) =
      machine.history told (initial number mode o) (before ++ (n, .start t i) :: past)

section

variable {number : Nat} {mode : Mode} {o : Options} {before during past : List (Stamp × Event)}
  {n : Stamp} {t : Thread} {i : Invocation} {e : Stamp × Event}

theorem split_snoc {α : Type} {es d rest : List α} {e x : α} (h : es ++ [e] = d ++ x :: rest) :
    (d = es ∧ x = e) ∨ ∃ rest', es = d ++ x :: rest' := by
  rcases List.eq_nil_or_concat rest with rfl | ⟨rest', y, rfl⟩
  · obtain ⟨rfl, hx⟩ := List.append_inj' h rfl
    exact .inl ⟨rfl, (List.singleton_inj.mp hx).symm⟩
  · have hlast : es ++ [e] = (d ++ x :: rest') ++ [y] := by simpa using h
    exact .inr ⟨rest', (List.append_inj' hlast rfl).1⟩

theorem InVain.begin (h : machine.Valid (initial number mode o) (before ++ [(n, .start t i)])) :
    InVain number mode o before n t i [] := by
  obtain ⟨hbefore, hstart⟩ := Machine.valid_snoc.mp h
  have hidle := isIdle_iff.mp hstart.2
  have hm := machine_move hstart
  refine ⟨?_, ?_, ⟨?_, ?_⟩, ?_, ?_⟩
  · rintro d e rest hsplit
    simp at hsplit
  · rw [Machine.after_snoc, move_issued hm (reachable_sound (reachable_of_valid hbefore)) t]
    exact List.append_nil _
  · simpa [others] using hbefore
  · rw [Machine.after_snoc]
    simp only [others, List.filter_nil, List.append_nil]
    exact (set_self hidle).symm.trans (set_set _ _ _ _).symm
  · rw [results, results, Machine.history_snoc, others, List.filter_nil, List.append_nil]
    exact (List.append_nil _).symm
  · rw [Machine.history_snoc, others, List.filter_nil, List.append_nil]
    exact (List.append_nil _).symm

theorem InVain.other (h : InVain number mode o before n t i past)
    (hpast : machine.Valid (initial number mode o) (before ++ (n, .start t i) :: past))
    (he : machine.Enabled
      (machine.after (initial number mode o) (before ++ (n, .start t i) :: past)) e)
    (ht : e.2.caller? ≠ some t) : InVain number mode o before n t i (past ++ [e]) := by
  have hothers : before ++ others t (past ++ [e]) = (before ++ others t past) ++ [e] := by
    simp [others, ht]
  obtain ⟨hvalid, hafter⟩ := h.without
  refine ⟨?_, ?_, ⟨?_, ?_⟩, ?_, ?_⟩
  · intro d x rest hd hx
    rcases split_snoc hd with ⟨rfl, rfl⟩ | ⟨rest', rfl⟩
    · exact absurd hx ht
    · exact h.own d x rest' rfl hx
  · rw [Machine.after_since,
      move_issued (machine_move he) (reachable_sound (reachable_of_valid hpast)) t, emits,
      atStep_other ht, List.append_nil]
    exact h.silent
  · rw [hothers]
    refine Machine.valid_snoc.mpr ⟨hvalid, ?_⟩
    rw [hafter]
    exact (enabled_apart _ _ ht).mpr he
  · rw [hothers, Machine.after_since, Machine.after_snoc, hafter]
    exact next_apart _ ht
  · rw [hothers, results, results, Machine.history_since, Machine.history_snoc, hafter, ended_apart]
    exact congrArg (· ++ _) h.same.1
  · rw [hothers, Machine.history_since, Machine.history_snoc, hafter, told_apart _ _ ht]
    exact congrArg (· ++ _) h.same.2

theorem InVain.step {p : Progress} {now : Stamp} (h : InVain number mode o before n t i past)
    (unplanned : Unplanned
      ((machine.after (initial number mode o) (before ++ (n, .start t i) :: past)).callers t))
    (later : Unplanned p)
    (hnext : machine.next
      (machine.after (initial number mode o) (before ++ (n, .start t i) :: past))
        (now, .caller t) =
      (machine.after (initial number mode o) (before ++ (n, .start t i) :: past)).set t p) :
    InVain number mode o before n t i (past ++ [(now, .caller t)]) := by
  have hothers : others t (past ++ [(now, .caller t)]) = others t past := by
    simp [others, Event.caller?]
  obtain ⟨hvalid, hafter⟩ := h.without
  refine ⟨?_, ?_, ⟨?_, ?_⟩, ?_, ?_⟩
  · intro d x rest hd hx
    rcases split_snoc hd with ⟨rfl, rfl⟩ | ⟨rest', rfl⟩
    · exact ⟨p, hnext⟩
    · exact h.own d x rest' rfl hx
  · rw [Machine.after_since, hnext, State.issued, set_callers, update_same,
      unplanned_lines later, ← h.silent, State.issued, unplanned_lines unplanned]
    rfl
  · rwa [hothers]
  · rw [hothers, Machine.after_since, hnext, set_set]
    exact hafter
  · rw [hothers, results, results, Machine.history_since]
    exact h.same.1.trans (List.append_nil _).symm
  · rw [hothers, Machine.history_since]
    exact h.same.2.trans (List.append_nil _).symm

theorem begin_returns (i : Invocation) : Returns i (begin i) := by
  rcases begin_cases i with ⟨h, -⟩ | ⟨l, format, args, h, -⟩
  · rw [h]
    rfl
  · rw [h]
    rfl

theorem run_unplanned
    (h : machine.Valid (initial number mode o) (before ++ (n, .start t i) :: during))
    (planned : ReturnsPlanned i) (quiet : started t during = []) :
    let s := machine.after (initial number mode o) (before ++ (n, .start t i) :: during)
    Returns i (s.callers t) ∧
      (Unplanned (s.callers t) → InVain number mode o before n t i during) := by
  refine since_induction h quiet (P := fun past =>
    let s := machine.after (initial number mode o) (before ++ (n, .start t i) :: past)
    Returns i (s.callers t) ∧
      (Unplanned (s.callers t) → InVain number mode o before n t i past)) ?_ ?_
  · intro hstart
    refine ⟨?_, fun _ => .begin hstart⟩
    have hcallers : (machine.next (machine.after (initial number mode o) before)
        (n, .start t i)).callers t = begin i := update_same _ _ _
    rw [Machine.after_snoc, hcallers]
    exact begin_returns i
  · rintro past e hpast he hbegun ⟨hreturns, hvain⟩
    have hm := machine_move he
    dsimp only
    rw [Machine.after_since]
    refine ⟨move_returns hm hbegun planned hreturns, fun unplanned => ?_⟩
    by_cases ht : e.2.caller? = some t
    · obtain ⟨now, e⟩ := e
      obtain ⟨rfl, hbefore, hnext⟩ := move_unplanned hm ht hbegun hreturns unplanned
      exact (hvain hbefore).step hbefore unplanned hnext
    · rw [move_callers hm ht] at unplanned
      exact (hvain unplanned).other hpast he ht

theorem run_in_vain
    (h : machine.Valid (initial number mode o) (before ++ (n, .start t i) :: during))
    (early : i.FailsEarly) (quiet : started t during = []) :
    let s := machine.after (initial number mode o) (before ++ (n, .start t i) :: during)
    Returns i (s.callers t) ∧
      (Unplanned (s.callers t) → InVain number mode o before n t i during) :=
  run_unplanned h (planned_returns early) quiet

end

section

variable {now : Stamp} {s : State} {e : Stamp × Event}

theorem next_noted (now : Stamp) (s : State) (e : Event) (os : List Outcome) :
    (Enabled (s.withOwn os) e ↔ Enabled s e) ∧ next now (s.withOwn os) e =
      (next now s e).withOwn (os ++ (ownAnswer s (now, e)).map Prod.snd) := by
  cases hown : e.isOwn with
  | true =>
    cases e with
    | ownCall i =>
      refine ⟨Iff.rfl, ?_⟩
      have hself := own_call_beside s s.worker s.diagnostics s.ownOutcomes now i
      have hworker : (ownCall s now i).1.worker = s.worker := congrArg (·.1.worker) hself
      have hreports : (ownCall s now i).1.diagnostics = s.diagnostics :=
        congrArg (·.1.diagnostics) hself
      have hcall := own_call_beside s s.worker s.diagnostics os now i
      simp only [next, ownAnswer, State.withOwn, hcall]
      simp only [State.beside, hworker, hreports]
      rfl
    | _ => cases hown
  | false =>
    have hnone : ownAnswer s (now, e) = [] := by
      cases e with
      | ownCall => cases hown
      | _ => rfl
    rw [hnone, List.map_nil, List.append_nil]
    exact next_withOwn now s os hown

theorem run_noted (s : State) (es : List (Stamp × Event)) (os : List Outcome) :
    (machine.Valid (s.withOwn os) es ↔ machine.Valid s es) ∧
      machine.after (s.withOwn os) es =
        (machine.after s es).withOwn (os ++ (ownAnswers s es).map Prod.snd) ∧
      results (s.withOwn os) es = results s es ∧
      machine.history told (s.withOwn os) es = machine.history told s es := by
  induction es generalizing s os with
  | nil => exact ⟨Iff.rfl, by rw [ownAnswers, Machine.history, List.map_nil, List.append_nil]; rfl,
      rfl, rfl⟩
  | cons e es ih =>
    obtain ⟨henabled, hnext⟩ := next_noted e.1 s e.2 os
    obtain ⟨hvalid, hafter, hresults, htold⟩ :=
      ih (machine.next s e) (os ++ (ownAnswer s e).map Prod.snd)
    have hnext' : machine.next (s.withOwn os) e =
        (machine.next s e).withOwn (os ++ (ownAnswer s e).map Prod.snd) := hnext
    refine ⟨?_, ?_, ?_, ?_⟩
    · rw [Machine.Valid, Machine.Valid, hnext', hvalid]
      exact and_congr_left' henabled
    · rw [Machine.after, hnext', hafter, ownAnswers, ownAnswers, Machine.history, List.map_append,
        List.append_assoc]
      rfl
    · rw [results, results, Machine.history, Machine.history, hnext']
      exact congrArg _ hresults
    · rw [Machine.history, Machine.history, hnext']
      exact congrArg _ htold

end

structure Vanished (number : Nat) (mode : Mode) (o : Options) (before : List (Stamp × Event))
    (n : Stamp) (t : Thread) (i : Invocation) (during : List (Stamp × Event)) (f : Fault) : Prop
    extends InVain number mode o before n t i during where
  nothing : ofThread t (machine.after (initial number mode o)
      (before ++ (n, .start t i) :: during)).handedOff =
    ofThread t (machine.after (initial number mode o) before).handedOff
  /-- When the thread has taken the fault and goes on, all that may come is what may come without
  the call, and it comes to the same. -/
  later : ∀ now, Meet (initial number mode o)
    ((before ++ (n, .start t i) :: during) ++ [(now, .collect t)]) (before ++ others t during)

structure Unheeded (number : Nat) (mode : Mode) (o : Options) (before : List (Stamp × Event))
    (now : Stamp) (i : Invocation) (rest : List (Stamp × Event)) (f : Fault)
    (s : State) : Prop where
  /-- It changes nothing but the record of such calls. -/
  record : let mid := machine.after (initial number mode o) before
    next now mid (.ownCall i) = mid.withOwn (mid.ownOutcomes ++ [.raised f])
  /-- The run without it is the same but for that record. -/
  without : machine.Valid (initial number mode o) (before ++ rest) ∧ ∃ earlier later,
    s.ownOutcomes = earlier ++ .raised f :: later ∧
      machine.after (initial number mode o) (before ++ rest) = s.withOwn (earlier ++ later)
  same : let es := before ++ (now, .ownCall i) :: rest
    results (initial number mode o) (before ++ rest) = results (initial number mode o) es ∧
      machine.history told (initial number mode o) (before ++ rest) =
        machine.history told (initial number mode o) es

structure Fruitless (number : Nat) (mode : Mode) (o : Options) (es : List (Stamp × Event))
    (s : State) : Prop where
  calls : ∀ before n t i during f looks, es = before ++ (n, .start t i) :: during →
    i.FailsEarly → started t during = [] → s.callers t = .done (.raised f) looks →
    Vanished number mode o before n t i during f
  ownCalls : ∀ before now i rest f, es = before ++ (now, .ownCall i) :: rest →
    i.FailsEarly → (ownCall (machine.after (initial number mode o) before) now i).2.1 = .raised f →
    Unheeded number mode o before now i rest f s

section

variable {number : Nat} {mode : Mode} {o : Options} {es before during rest : List (Stamp × Event)}
  {n now : Stamp} {t : Thread} {i : Invocation} {f : Fault}

theorem InVain.vanished (h : InVain number mode o before n t i during) {looks : Nat}
    (hrun : machine.Valid (initial number mode o) (before ++ (n, .start t i) :: during))
    (raised :
      (machine.after (initial number mode o) (before ++ (n, .start t i) :: during)).callers t =
      .done (.raised f) looks) : Vanished number mode o before n t i during f := by
  refine { h with nothing := ?_, later := ?_ }
  · obtain ⟨hbefore, hstart⟩ := (machine.valid_append _ _ _).mp hrun
    have hidle : Finished ((machine.after (initial number mode o) before).callers t) :=
      .inl hstart.1.2
    have hdone : Finished ((machine.after (initial number mode o)
        (before ++ (n, .start t i) :: during)).callers t) := by
      rw [raised]
      exact .inr trivial
    rw [← finished_issued (reachable_sound (reachable_of_valid hrun)).coupled hdone,
      ← finished_issued (reachable_sound (reachable_of_valid hbefore)).coupled hidle]
    exact h.silent
  · intro now
    have hcollect : machine.Enabled (machine.after (initial number mode o)
        (before ++ (n, .start t i) :: during)) (now, .collect t) := by
      change IsDone _
      rw [raised]
      trivial
    refine .of_after (Machine.valid_snoc.mpr ⟨hrun, hcollect⟩) h.without.1 ?_ ?_
    · rw [Machine.after_snoc]
      exact h.without.2.symm
    · rw [results, Machine.history_snoc]
      exact (List.append_nil _).trans h.same.1.symm

theorem kept_call_unheeded
    (h : machine.Valid (initial number mode o) (before ++ (now, .ownCall i) :: rest))
    (kept : (ownCall (machine.after (initial number mode o) before) now i).1 =
      machine.after (initial number mode o) before)
    (raised : (ownCall (machine.after (initial number mode o) before) now i).2.1 = .raised f) :
    Unheeded number mode o before now i rest f
      (machine.after (initial number mode o) (before ++ (now, .ownCall i) :: rest)) := by
  obtain ⟨hbefore, -, hrest⟩ := (machine.valid_append _ _ _).mp h
  set mid := machine.after (initial number mode o) before
  have hnext : next now mid (.ownCall i) = mid.withOwn (mid.ownOutcomes ++ [.raised f]) := by
    simp only [next, kept, raised]
    rfl
  have hmachine : machine.next mid (now, .ownCall i) =
      mid.withOwn (mid.ownOutcomes ++ [.raised f]) := hnext
  obtain ⟨hvalid, hafter, hresults, htold⟩ :=
    run_noted mid rest (mid.ownOutcomes ++ [.raised f])
  have hself : machine.after mid rest = (machine.after mid rest).withOwn
      (mid.ownOutcomes ++ (ownAnswers mid rest).map Prod.snd) :=
    (run_noted mid rest mid.ownOutcomes).2.1
  rw [hmachine] at hrest
  refine ⟨hnext, ⟨?_, mid.ownOutcomes, (ownAnswers mid rest).map Prod.snd, ?_, ?_⟩, ?_, ?_⟩
  · exact (machine.valid_append _ _ _).mpr ⟨hbefore, hvalid.mp hrest⟩
  · rw [machine.after_append, Machine.after, hmachine, hafter]
    exact List.append_assoc _ _ _
  · rw [machine.after_append, machine.after_append, Machine.after, hmachine, hafter]
    exact hself
  · rw [results, results, machine.history_append, machine.history_append, Machine.history, hmachine]
    exact congrArg _ hresults.symm
  · rw [machine.history_append, machine.history_append, Machine.history, hmachine]
    exact congrArg _ htold.symm

theorem own_call_unheeded
    (h : machine.Valid (initial number mode o) (before ++ (now, .ownCall i) :: rest))
    (early : i.FailsEarly)
    (raised : (ownCall (machine.after (initial number mode o) before) now i).2.1 = .raised f) :
    Unheeded number mode o before now i rest f
      (machine.after (initial number mode o) (before ++ (now, .ownCall i) :: rest)) :=
  kept_call_unheeded h (own_call_keeps early.settings) raised

end

/-- A call with a depth that is no number, when the worker has come to its first receive. -/
def misplaced : Invocation := ⟨.output (.text "1") (.priority .info) (.text "a"), [], [], .usual⟩

def readied : List (Stamp × Event) := List.replicate 3 (⟨2024, 5, 6, 7, 8, 8, 0⟩, .worker none)

/-- Beside the call another thread logs, and while its line is written the worker makes such a call
too. -/
def stumble : List (Stamp × Event) :=
  let step (n k : Nat) : List Event := List.replicate k (.caller (.caller n))
  let work (k : Nat) : List Event := List.replicate k (.worker none)
  let logs : List Event := [.start (.caller 1) ⟨.leveled .info (.text "b") [], [], [], .usual⟩]
  let events : List Event :=
    logs ++ step 1 3 ++ step 0 1 ++ step 1 4 ++ work 2 ++ step 1 3 ++ work 1 ++
      [.ownCall misplaced] ++ work 2
  events.map (⟨2024, 5, 6, 7, 8, 9, 1234⟩, ·)

def stumbling : List (Stamp × Event) :=
  readied ++ (⟨2024, 5, 6, 7, 8, 9, 0⟩, .start (.caller 0) misplaced) :: stumble

theorem stumbling_raises :
    let s := machine.after (initial 1 .text infoOnly) stumbling
    s.callers (.caller 0) = .done (.raised .wrongType) 0 ∧
      s.ownOutcomes = [.raised .wrongType] := by
  constructor
  · rfl
  · rfl

end Logger

end LeveledLog
