import LeveledLog.Proofs.Line.Unambiguous
import LeveledLog.Proofs.Logger.Apart
import LeveledLog.Proofs.Logger.Backtraces
import LeveledLog.Proofs.Logger.CallSites

/-!
A call that ends an operation, and three calls that stand in for it: one emits its message, one
shows the frames and one waits. The steps of the one are followed by steps of the others, so that
both come to the same state but for the outcome, whatever other threads and the worker do meanwhile.
-/

namespace LeveledLog

theorem Render.run_ok {α β : Type} {r : Render α} {g : α → β} {a : α} {looks : Nat}
    (h : r.run.run 0 = (.ok a, looks)) :
    (do let x ← r; pure (g x) : Render β).run.run 0 = (.ok (g a), looks) := by
  change ExceptT.run (r >>= fun x => pure (g x)) 0 = _
  change r 0 = _ at h
  simp only [bind, ExceptT.bind, ExceptT.mk, ExceptT.run, StateT.bind, h]
  rfl

theorem Render.outcome_of_run {α : Type} {r : Render α} {a : α} {looks : Nat}
    (h : r.run.run 0 = (.ok a, looks)) : r.outcome = .ok a := by
  rw [Render.outcome, h]

namespace Logger

def utterance (i : Invocation) (m : List Char) : Invocation :=
  ⟨.output (.int 1) (.priority .emergency) (.text (String.ofList m)), i.stack, i.streams, i.host⟩

/-- It is called from one frame further in, as a direct call leaves its own caller out. -/
def trace (i : Invocation) (fr : Frame) : Invocation :=
  ⟨.backtrace (.int 5), fr :: i.stack, i.streams, i.host⟩

def wait (i : Invocation) : Invocation := ⟨.sync, i.stack, i.streams, i.host⟩

def alarm (m : List CodePoint) : Ending := .fault (.panicked m)

section

variable {o : Options} {now : Stamp} {i : Invocation} {looks : Nat} {format : Value}
  {args : List Value}

theorem plan_of_panic (o : Options) (now : Stamp) (panic : i.call = .panic format args)
    {m : List CodePoint} (renders : (message i.host.room format args).run.run 0 = (.ok m, looks)) :
    (Plan.make o now i).run.run 0 =
      (.ok (o, ⟨(Direct.lineOf o.flags now i.stack .emergency true m ++
      [Direct.blockOf i.stack 5]).map .line ++ [.barrier], alarm m⟩), looks) := by
  simp only [Plan.make, panic, Direct.last_words]
  exact Render.run_ok (g := fun m => (o, (⟨(Direct.lineOf o.flags now i.stack .emergency true m ++
    [Direct.blockOf i.stack Backtrace.panicDepth]).map .line ++ [.barrier], alarm m⟩ : Plan)))
    renders

theorem rank_lt_limit (p : Priority) : p.rank < 10 ^ Text.digitLimit := by
  have hsmall : p.rank < 10 := by cases p <;> decide
  have hlimit : Text.digitLimit ≠ 0 := by decide
  exact Nat.lt_of_lt_of_le hsmall (Nat.le_self_pow hlimit 10)

theorem integerText_rank (p : Priority) :
    Value.integerText p.rank = pure (Text.decimal p.rank) := by
  have hsome := Text.decimal?_natCast (rank_lt_limit p)
  have hdecimal := Text.eq_decimal_of_some hsome
  unfold Value.integerText
  rw [hsome]
  exact congrArg pure hdecimal

theorem tagOf_priority (p : Priority) (f : Flags) :
    Line.tagOf (.priority p) f = pure (if f.has .syslog then [] else Text.decimal p.rank) := by
  unfold Line.tagOf
  split
  · rfl
  · rw [Line.toInteger_of_int (i := p.rank) rfl, pure_bind, integerText_rank]

theorem front_syslog (tag : List Char) (f : Flags) (now : Stamp) :
    Line.front (if f.has .syslog then [] else tag) f now = Line.front tag f now := by
  unfold Line.front
  split <;> rfl

theorem ofValues_priority {m : List Char} (nonempty : m ≠ []) (p : Priority) (f : Flags)
    (site : Option CallSite) (now : Stamp) :
    Line.ofValues (.priority p) f (.text (String.ofList m)) site now =
      pure (Line.format p.rank f (Text.points m) site now) := by
  have htruth : (Value.text (String.ofList m)).truth = true := by simp [Value.truth, nonempty]
  have hpoints : (Text.points m).isEmpty = false := by simp [nonempty]
  unfold Line.ofValues
  rw [htruth, tagOf_priority, Line.format, hpoints]
  simp only [Bool.not_true, Bool.false_eq_true, if_false, pure_bind, Value.text?, Line.assemble,
    front_syslog, String.toList_ofList]

theorem plan_of_utterance (o : Options) (now : Stamp) (i : Invocation) (m : List Char) :
    (Plan.make o now (utterance i m)).run.run 0 = (.ok (o, .ofTasks
      ((Direct.lineOf o.flags now i.stack .emergency true (Text.points m)).map .line)), 0) := by
  have htasks : Plan.output o now i.stack (.int 1) (.priority .emergency)
      (.text (String.ofList m)) =
        pure ((Direct.lineOf o.flags now i.stack .emergency true (Text.points m)).map .line) := by
    by_cases nonempty : m = []
    · rw [nonempty]
      rfl
    · have htruth : (Value.text (String.ofList m)).truth = true := by simp [Value.truth, nonempty]
      have hpoints : Text.points m ≠ [] := mt Text.points_eq_nil.mp nonempty
      have hsite : (if (0 : Int) < 1 ∧ Line.wantsSite o.flags = true then
          some (i.stack.siteAt (1 : Int).toNat) else none) =
            Direct.siteOf o.flags i.stack true := by
        simp [Direct.siteOf]
      rw [Plan.output, htruth, Direct.siteOf_output, locate_integer rfl, hsite, Direct.lineOf,
        if_neg hpoints]
      simp only [Bool.not_true, Bool.false_eq_true, if_false, pure_bind, ofValues_priority nonempty]
      rfl
  simp only [Plan.make, utterance, htasks, pure_bind]
  rfl

theorem line_cases (f : Flags) (now : Stamp) (stack : Stack) (p : Priority) (tellsSite : Bool)
    (m : List CodePoint) : Direct.lineOf f now stack p tellsSite m = [] ∨
      ∃ l, Direct.lineOf f now stack p tellsSite m = [l] := by
  unfold Direct.lineOf
  split
  · exact .inl rfl
  · exact .inr ⟨_, rfl⟩

theorem plan_of_trace (fr : Frame) : (Plan.make o now (trace i fr)).run.run 0 =
    (.ok (o, .ofTasks [.line (Direct.blockOf i.stack 5)]), 0) := by
  obtain ⟨shown, hshown, hmake⟩ := make_backtrace (i := trace i fr) (d := 5) rfl rfl
  have hframes : Backtrace.Shown i.stack 5 (Backtrace.frames i.stack 5) :=
    Backtrace.frames_shown (n := 5) (.inl rfl)
  have hsame : shown = Backtrace.frames i.stack 5 :=
    (Backtrace.shown_nested (by decide) (Int.le_refl 5) hshown hframes).eq_of_length
      (hshown.count.trans hframes.count.symm)
  rw [hmake, hsame]
  rfl

theorem plan_of_wait : (Plan.make o now (wait i)).run.run 0 =
    (.ok (o, ⟨[.barrier], .value (.bool true)⟩), 0) := rfl

end

/-- How far a call is that ends an operation, how far its stand-ins are, and which of them have
begun. -/
inductive InStep (i : Invocation) (m : List Char) (looks : Nat) (fr : Frame) :
    Progress → Progress → List Invocation → Prop where
  | composing : InStep i m looks fr (.composing i) (.composing (utterance i m)) [utterance i m]
  | line {l} : InStep i m looks fr
      (.handing [.line l, .line (Direct.blockOf i.stack 5), .barrier] (alarm (Text.points m)) looks)
      (.handing [.line l] (.value .none) 0) [utterance i m]
  | lineSent : InStep i m looks fr
      (.sending none [.line (Direct.blockOf i.stack 5), .barrier] (alarm (Text.points m)) looks)
      (.sending none [] (.value .none) 0) [utterance i m]
  | block : InStep i m looks fr
      (.handing [.line (Direct.blockOf i.stack 5), .barrier] (alarm (Text.points m)) looks)
      (.handing [.line (Direct.blockOf i.stack 5)] (.value .none) 0) [utterance i m, trace i fr]
  | blockSent : InStep i m looks fr
      (.sending none [.barrier] (alarm (Text.points m)) looks)
      (.sending none [] (.value .none) 0) [utterance i m, trace i fr]
  | barrier : InStep i m looks fr
      (.handing [.barrier] (alarm (Text.points m)) looks)
      (.handing [.barrier] (.value (.bool true)) 0) [utterance i m, trace i fr, wait i]
  | barrierSent {b} : InStep i m looks fr
      (.sending (some b) [] (alarm (Text.points m)) looks)
      (.sending (some b) [] (.value (.bool true)) 0) [utterance i m, trace i fr, wait i]
  | awaiting {b} : InStep i m looks fr
      (.awaiting b [] (alarm (Text.points m)) looks)
      (.awaiting b [] (.value (.bool true)) 0) [utterance i m, trace i fr, wait i]
  | crossed : InStep i m looks fr
      (.handing [] (alarm (Text.points m)) looks)
      (.handing [] (.value (.bool true)) 0) [utterance i m, trace i fr, wait i]
  | done : InStep i m looks fr
      (.done (.raised (.panicked (Text.points m))) looks)
      (.done (.returned (.bool true)) 0) [utterance i m, trace i fr, wait i]

def State.onward (s : State) (t : Thread) : State :=
  { s with channel := Handoff.next s.channel (.step t) }

/-- A thread goes on from a call that returns to its next call, and makes the plan of that one. -/
def turnOver (now : Stamp) (t : Thread) (j : Invocation) : List (Stamp × Event) :=
  [(now, .caller t), (now, .collect t), (now, .start t j), (now, .caller t)]

section

variable {now : Stamp} {s : State} {t : Thread} {p q : Progress}

theorem next_set (now : Stamp) (s : State) (t : Thread) (p : Progress) :
    next now (s.set t p) (.caller t) = callerStep (s.set t p) now t p := by
  rw [next, set_callers, update_same]

theorem enabled_set (s : State) (t : Thread) (p : Progress) :
    Enabled (s.set t p) (.caller t) ↔ CallerCanStep s t p := by
  rw [Enabled, set_callers, update_same]
  cases p <;> rfl

theorem next_goes {u : State} (h : callerStep (s.set t p) now t p = (u.set t p).set t q) :
    next now (s.set t p) (.caller t) = u.set t q := by
  rw [next_set, h, set_set]

theorem next_composing {j : Invocation} {plan : Plan} {looks : Nat}
    (made : (Plan.make s.options now j).run.run 0 = (.ok (s.options, plan), looks)) :
    next now (s.set t (.composing j)) (.caller t) =
      s.set t (.handing plan.tasks plan.ending looks) := by
  have hoptions : (s.set t (.composing j)).options = s.options := rfl
  refine next_goes ?_
  rw [callerStep, compose, hoptions, made]
  rfl

theorem sendOn_set (s : State) (t : Thread) (p : Progress) (w : Option Nat) (tasks : List Task)
    (ending : Ending) (looks : Nat) :
    sendOn (s.set t p) t w tasks ending looks =
      if ((s.onward t).channel.phase t).AtRest then
        (s.onward t).set t (match w with
          | none => .handing tasks ending looks
          | some b => .awaiting b tasks ending looks)
      else (s.onward t).set t p := by
  have honward : (s.set t p).onward t = (s.onward t).set t p := rfl
  change (if (((s.set t p).onward t).channel.phase t).AtRest then _ else (s.set t p).onward t) = _
  rw [honward]
  by_cases rest : ((s.onward t).channel.phase t).AtRest
  · have hset : (((s.onward t).set t p).channel.phase t).AtRest := rest
    rw [if_pos hset, if_pos rest]
    cases w <;> exact set_set (s.onward t) t p _
  · have hset : ¬(((s.onward t).set t p).channel.phase t).AtRest := rest
    rw [if_neg hset, if_neg rest]

theorem next_sent_line {tasks : List Task} {ending : Ending} {looks : Nat}
    (rest : ((s.onward t).channel.phase t).AtRest) :
    next now (s.set t (.sending none tasks ending looks)) (.caller t) =
      (s.onward t).set t (.handing tasks ending looks) := by
  rw [next_set, callerStep, sendOn_set, if_pos rest]

theorem next_sent_barrier {b : Nat} {tasks : List Task} {ending : Ending} {looks : Nat}
    (rest : ((s.onward t).channel.phase t).AtRest) :
    next now (s.set t (.sending (some b) tasks ending looks)) (.caller t) =
      (s.onward t).set t (.awaiting b tasks ending looks) := by
  rw [next_set, callerStep, sendOn_set, if_pos rest]

theorem next_unsent {w : Option Nat} {tasks : List Task} {ending : Ending} {looks : Nat}
    (busy : ¬((s.onward t).channel.phase t).AtRest) :
    next now (s.set t (.sending w tasks ending looks)) (.caller t) =
      (s.onward t).set t (.sending w tasks ending looks) := by
  rw [next_set, callerStep, sendOn_set, if_neg busy]

theorem turn_over {j : Invocation} {plan : Plan} {looks' : Nat} (v : Value) (looks : Nat)
    (other : t ≠ s.own) (atOnce : begin j = .composing j)
    (made : (Plan.make s.options now j).run.run 0 = (.ok (s.options, plan), looks')) :
    machine.Valid (s.set t (.handing [] (.value v) looks)) (turnOver now t j) ∧
      machine.after (s.set t (.handing [] (.value v) looks)) (turnOver now t j) =
        s.set t (.handing plan.tasks plan.ending looks') := by
  have hfinish : machine.next (s.set t (.handing [] (.value v) looks)) (now, .caller t) =
      s.set t (.done (.returned v) looks) := next_goes rfl
  have hcollect : machine.next (s.set t (.done (.returned v) looks)) (now, .collect t) =
      s.set t .idle := set_set s t _ _
  have hstart : machine.next (s.set t .idle) (now, .start t j) = s.set t (.composing j) :=
    (set_set s t _ _).trans (congrArg (s.set t) atOnce)
  have hcompose : machine.next (s.set t (.composing j)) (now, .caller t) =
      s.set t (.handing plan.tasks plan.ending looks') := next_composing made
  simp only [turnOver, Machine.Valid, Machine.after, hfinish, hcollect, hstart, hcompose, and_true]
  refine ⟨(enabled_set s t _).mpr trivial, ?_, ⟨other, ?_⟩, (enabled_set s t _).mpr trivial⟩
  · change IsDone ((s.set t (.done (.returned v) looks)).callers t)
    rw [set_callers, update_same]
    trivial
  · rw [set_callers, update_same]
    trivial

end

/-- A step of a thread, and moves of the same thread with another call that go as far. -/
structure Pace (now : Stamp) (s : State) (t : Thread) (p q : Progress) (more : List Invocation)
    (u : State) (p' q' : Progress) : Prop where
  step : next now (s.set t p) (.caller t) = u.set t p'
  options : u.options = s.options
  moves : ∃ moves, machine.Valid (s.set t q) moves ∧
    machine.after (s.set t q) moves = u.set t q' ∧ (∀ e ∈ moves, e.2.caller? = some t) ∧
    started t moves = more

section

variable {now : Stamp} {s u : State} {t : Thread} {p q p' q' : Progress} {i : Invocation}
  {m : List Char} {looks : Nat} {fr : Frame} {calls : List Invocation} {format : Value}
  {args : List Value}

theorem Pace.single (can : CallerCanStep s t q)
    (step : next now (s.set t p) (.caller t) = u.set t p')
    (follow : next now (s.set t q) (.caller t) = u.set t q') (options : u.options = s.options) :
    Pace now s t p q [] u p' q' := by
  refine ⟨step, options, [(now, .caller t)], ⟨(enabled_set s t q).mpr can, trivial⟩, follow, ?_,
    rfl⟩
  rintro e he
  rw [List.mem_singleton.mp he]
  rfl

theorem Pace.turn {j : Invocation} {tasks : List Task} {ending : Ending} {v : Value} {n n' : Nat}
    (can : CallerCanStep s t q) (step : next now (s.set t p) (.caller t) = u.set t p')
    (follow : next now (s.set t q) (.caller t) = u.set t (.handing [] (.value v) n))
    (options : u.options = s.options) (other : t ≠ u.own) (atOnce : begin j = .composing j)
    (made : (Plan.make u.options now j).run.run 0 = (.ok (u.options, ⟨tasks, ending⟩), n')) :
    Pace now s t p q [j] u p' (.handing tasks ending n') := by
  obtain ⟨hvalid, hafter⟩ := turn_over v n other atOnce made
  have hnext : machine.next (s.set t q) (now, .caller t) = u.set t (.handing [] (.value v) n) :=
    follow
  refine ⟨step, options, (now, .caller t) :: turnOver now t j,
    ⟨(enabled_set s t q).mpr can, hnext ▸ hvalid⟩, ?_, ?_, ?_⟩
  · rw [Machine.after, hnext, hafter]
  · intro e he
    simp only [turnOver, List.mem_cons, List.not_mem_nil, or_false] at he
    rcases he with rfl | rfl | rfl | rfl | rfl <;> rfl
  · simp [started, turnOver, begun]

theorem InStep.busy (h : InStep i m looks fr p q calls) : p ≠ .idle := by
  cases h <;> rintro ⟨⟩

/-- Each step of the call is followed by its stand-ins. -/
theorem InStep.step (now : Stamp) (h : InStep i m looks fr p q calls)
    (panic : i.call = .panic format args)
    (renders : (message i.host.room format args).run.run 0 = (.ok (Text.points m), looks))
    (other : t ≠ s.own) (can : CallerCanStep s t p) :
    ∃ u p' q' more, InStep i m looks fr p' q' (calls ++ more) ∧ Pace now s t p q more u p' q' := by
  cases h with
  | composing =>
    have hstep := next_composing (s := s) (t := t) (plan_of_panic s.options now panic renders)
    have hfollow := next_composing (s := s) (t := t) (plan_of_utterance s.options now i m)
    rcases line_cases s.options.flags now i.stack .emergency true (Text.points m) with
      hline | ⟨l, hline⟩
    · rw [hline] at hstep hfollow
      exact ⟨s, _, _, [trace i fr], .block,
        .turn can hstep hfollow rfl other rfl (plan_of_trace fr)⟩
    · rw [hline] at hstep hfollow
      exact ⟨s, _, _, [], .line, .single can hstep hfollow rfl⟩
  | @line l =>
    exact ⟨{ s with channel := Handoff.next s.channel (.send t (.line l)) }, _, _, [], .lineSent,
      .single trivial (next_goes rfl) (next_goes rfl) rfl⟩
  | lineSent =>
    by_cases rest : ((s.onward t).channel.phase t).AtRest
    · exact ⟨s.onward t, _, _, [trace i fr], .block,
        .turn can (next_sent_line rest) (next_sent_line rest) rfl other rfl (plan_of_trace fr)⟩
    · exact ⟨s.onward t, _, _, [], .lineSent,
        .single can (next_unsent rest) (next_unsent rest) rfl⟩
  | block =>
    exact ⟨{ s with channel := Handoff.next s.channel (.send t (.line _)) }, _, _, [], .blockSent,
      .single trivial (next_goes rfl) (next_goes rfl) rfl⟩
  | blockSent =>
    by_cases rest : ((s.onward t).channel.phase t).AtRest
    · exact ⟨s.onward t, _, _, [wait i], .barrier,
        .turn can (next_sent_line rest) (next_sent_line rest) rfl other rfl plan_of_wait⟩
    · exact ⟨s.onward t, _, _, [], .blockSent,
        .single can (next_unsent rest) (next_unsent rest) rfl⟩
  | barrier =>
    exact ⟨{ s with
      channel := Handoff.next s.channel (.send t (.barrier s.barriers))
      barriers := s.barriers + 1 }, _, _, [], .barrierSent,
      .single trivial (next_goes rfl) (next_goes rfl) rfl⟩
  | barrierSent =>
    by_cases rest : ((s.onward t).channel.phase t).AtRest
    · exact ⟨s.onward t, _, _, [], .awaiting,
        .single can (next_sent_barrier rest) (next_sent_barrier rest) rfl⟩
    · exact ⟨s.onward t, _, _, [], .barrierSent,
        .single can (next_unsent rest) (next_unsent rest) rfl⟩
  | awaiting => exact ⟨s, _, _, [], .crossed, .single can (next_goes rfl) (next_goes rfl) rfl⟩
  | crossed => exact ⟨s, _, _, [], .done, .single trivial (next_goes rfl) (next_goes rfl) rfl⟩
  | done => exact can.elim

end

/-- A run in which other calls of a thread stand in for the one that it has begun, when `past` has
happened since. -/
structure StandsIn (number : Nat) (mode : Mode) (o : Options) (before : List (Stamp × Event))
    (n : Stamp) (t : Thread) (i : Invocation) (past instead : List (Stamp × Event))
    (calls : List Invocation) (q : Progress) : Prop where
  calls : started t instead = calls
  /-- All that others do is the same. -/
  beside : others t instead = others t past
  valid : machine.Valid (initial number mode o) (before ++ instead)
  ends : machine.after (initial number mode o) (before ++ instead) =
    (machine.after (initial number mode o) (before ++ (n, .start t i) :: past)).set t q
  results : results (initial number mode o) (before ++ instead) =
    results (initial number mode o) (before ++ (n, .start t i) :: past)

section

variable {number : Nat} {mode : Mode} {o : Options}
  {before during past instead : List (Stamp × Event)}
  {n : Stamp} {t : Thread} {i : Invocation} {calls more : List Invocation} {p q q' : Progress}
  {m : List Char} {looks : Nat} {fr : Frame} {format : Value} {args : List Value}

theorem results_caller {s : State} {moves : List (Stamp × Event)}
    (own : ∀ e ∈ moves, e.2.caller? = some t) : results s moves = [] := by
  induction moves generalizing s with
  | nil => rfl
  | cons e moves ih =>
    obtain ⟨now, e⟩ := e
    have hnone : ended s (now, e) = [] := by
      cases e with
      | worker | ownCall => cases own _ List.mem_cons_self
      | _ => rfl
    rw [results, Machine.history, hnone, List.nil_append]
    exact ih fun e' he' => own e' (List.mem_cons_of_mem _ he')

theorem others_caller {moves : List (Stamp × Event)} (own : ∀ e ∈ moves, e.2.caller? = some t) :
    others t moves = [] := by
  refine List.filter_eq_nil_iff.mpr fun e he => ?_
  simp [own e he]

theorem StandsIn.begin (h : machine.Valid (initial number mode o) (before ++ [(n, .start t i)]))
    {j : Invocation} (atOnce : begin j = q) :
    StandsIn number mode o before n t i [] [(n, .start t j)] [j] q := by
  obtain ⟨hbefore, hstart⟩ := Machine.valid_snoc.mp h
  refine ⟨?_, ?_, ?_, ?_, ?_⟩
  · simp [started, begun]
  · exact others_caller fun e he => by rw [List.mem_singleton.mp he]; rfl
  · exact Machine.valid_snoc.mpr ⟨hbefore, hstart⟩
  · rw [Machine.after_snoc, Machine.after_snoc]
    exact (congrArg (State.set _ t) atOnce).trans (set_set _ _ _ _).symm
  · rw [Logger.results, Logger.results, Machine.history_snoc, Machine.history_snoc]
    rfl

theorem StandsIn.other {e : Stamp × Event}
    (h : StandsIn number mode o before n t i past instead calls q)
    (he : machine.Enabled
      (machine.after (initial number mode o) (before ++ (n, .start t i) :: past)) e)
    (ht : e.2.caller? ≠ some t) :
    StandsIn number mode o before n t i (past ++ [e]) (instead ++ [e]) calls q := by
  refine ⟨?_, ?_, ?_, ?_, ?_⟩
  · rw [started, List.flatMap_append, ← started, h.calls, List.flatMap_singleton, begun_other ht,
      List.append_nil]
  · rw [others, others, List.filter_append, List.filter_append]
    exact congrArg (· ++ _) h.beside
  · rw [← List.append_assoc]
    refine Machine.valid_snoc.mpr ⟨h.valid, ?_⟩
    rw [h.ends]
    exact (enabled_apart _ q ht).mpr he
  · rw [← List.append_assoc, Machine.after_since, Machine.after_snoc, h.ends]
    exact next_apart q ht
  · rw [← List.append_assoc, Logger.results, Logger.results, Machine.history_since,
      Machine.history_snoc, h.ends, ended_apart]
    exact congrArg (· ++ _) h.results

theorem StandsIn.step {now : Stamp} {u : State} {p' : Progress}
    (h : StandsIn number mode o before n t i past instead calls q)
    (hp : (machine.after (initial number mode o) (before ++ (n, .start t i) :: past)).callers t = p)
    (pace : Pace now
      (machine.after (initial number mode o) (before ++ (n, .start t i) :: past)) t p q
      more u p' q') :
    ∃ instead', StandsIn number mode o before n t i (past ++ [(now, .caller t)]) instead'
      (calls ++ more)
      q' := by
  obtain ⟨moves, hvalid, hafter, own, hmore⟩ := pace.moves
  have hnext :
    machine.next (machine.after (initial number mode o) (before ++ (n, .start t i) :: past))
      (now, .caller t) = u.set t p' := by
    rw [← pace.step, set_self hp]
    rfl
  refine ⟨instead ++ moves, ?_, ?_, ?_, ?_, ?_⟩
  · rw [started, List.flatMap_append, ← started, ← started, h.calls, hmore]
  · rw [others, List.filter_append, ← others, ← others, others_caller own, h.beside, others, others,
      List.filter_append]
    simp [Event.caller?]
  · rw [← List.append_assoc, machine.valid_append, h.ends]
    exact ⟨h.valid, hvalid⟩
  · rw [← List.append_assoc, Machine.after_since, machine.after_append, h.ends, hafter, hnext,
      set_set]
  · rw [← List.append_assoc, Logger.results, Logger.results, machine.history_append,
      Machine.history_since, h.ends, ← Logger.results, ← Logger.results, ← Logger.results,
      results_caller own, h.results]
    rfl

/-- The calls that stand in for a panic have come as far as it has, until it is collected. -/
def KeepStep (number : Nat) (mode : Mode) (o : Options) (before : List (Stamp × Event)) (n : Stamp)
    (t : Thread) (i : Invocation) (m : List Char) (looks : Nat) (fr : Frame)
    (past : List (Stamp × Event)) : Prop :=
  let s := machine.after (initial number mode o) (before ++ (n, .start t i) :: past)
  s.callers t = .idle ∨ ∃ q calls instead, InStep i m looks fr (s.callers t) q calls ∧
    StandsIn number mode o before n t i past instead calls q

theorem keepStep_begin (h : machine.Valid (initial number mode o) (before ++ [(n, .start t i)]))
    (panic : i.call = .panic format args) :
    KeepStep number mode o before n t i m looks fr [] := by
  have hcallers : (machine.next (machine.after (initial number mode o) before)
      (n, .start t i)).callers t = .composing i := by
    have hbegin : begin i = .composing i := by rw [begin, panic]
    exact (update_same _ _ _).trans hbegin
  refine .inr ⟨.composing (utterance i m), [utterance i m], _, ?_, .begin h rfl⟩
  rw [Machine.after_snoc, hcallers]
  exact .composing

theorem StandsIn.keepStep {now : Stamp}
    (h : StandsIn number mode o before n t i past instead calls q)
    (hin : InStep i m looks fr ((machine.after (initial number mode o)
      (before ++ (n, .start t i) :: past)).callers t) q calls)
    (hpast : machine.Valid (initial number mode o) (before ++ (n, .start t i) :: past))
    (he : machine.Enabled
      (machine.after (initial number mode o) (before ++ (n, .start t i) :: past)) (now, .caller t))
    (panic : i.call = .panic format args)
    (renders : (message i.host.room format args).run.run 0 = (.ok (Text.points m), looks)) :
    KeepStep number mode o before n t i m looks fr (past ++ [(now, .caller t)]) := by
  have other := (reachable_sound (reachable_of_valid hpast)).coupled.ne_own rfl hin.busy
  obtain ⟨u, p', q', more, hin', pace⟩ := hin.step now panic renders other he
  obtain ⟨instead', hstands'⟩ := h.step rfl pace
  have hnext := pace.step
  rw [set_self rfl] at hnext
  have hcallers : (machine.next (machine.after (initial number mode o)
      (before ++ (n, .start t i) :: past)) (now, .caller t)).callers t = p' :=
    (congrArg (·.callers t) hnext).trans (update_same _ _ _)
  refine .inr ⟨q', _, instead', ?_, hstands'⟩
  rw [Machine.after_since, hcallers]
  exact hin'

theorem KeepStep.step {e : Stamp × Event}
    (h : KeepStep number mode o before n t i m looks fr past)
    (hpast : machine.Valid (initial number mode o) (before ++ (n, .start t i) :: past))
    (he : machine.Enabled
      (machine.after (initial number mode o) (before ++ (n, .start t i) :: past)) e)
    (hbegun : begun t e.2 = []) (panic : i.call = .panic format args)
    (renders : (message i.host.room format args).run.run 0 = (.ok (Text.points m), looks)) :
    KeepStep number mode o before n t i m looks fr (past ++ [e]) := by
  have hm := machine_move he
  rcases h with idle | ⟨q, calls, instead, hin, hstands⟩
  · refine .inl ?_
    rw [Machine.after_since]
    rcases move_idle hm idle with ⟨hidle, -⟩ | ⟨j, hlater, -⟩
    · exact hidle
    · rw [hbegun] at hlater
      cases hlater
  · by_cases ht : e.2.caller? = some t
    · obtain ⟨now, e⟩ := e
      cases e with
      | start r j =>
        obtain rfl := Option.some.inj ht
        simp [begun] at hbegun
      | collect r =>
        obtain rfl := Option.some.inj ht
        refine .inl ?_
        rw [Machine.after_since]
        exact update_same _ _ _
      | caller r =>
        obtain rfl := Option.some.inj ht
        exact hstands.keepStep hin hpast he panic renders
      | worker | ownCall => cases ht
    · refine .inr ⟨q, calls, instead ++ [e], ?_, hstands.other he ht⟩
      rw [Machine.after_since, move_callers hm ht]
      exact hin

theorem run_stands_in
    (h : machine.Valid (initial number mode o) (before ++ (n, .start t i) :: during))
    (panic : i.call = .panic format args)
    (renders : (message i.host.room format args).run.run 0 = (.ok (Text.points m), looks))
    (fr : Frame) (quiet : started t during = []) :
    KeepStep number mode o before n t i m looks fr during :=
  since_induction h quiet (fun hstart => keepStep_begin hstart panic)
    fun _ _ hpast he hbegun hearlier => hearlier.step hpast he hbegun panic renders

end

end Logger

end LeveledLog
