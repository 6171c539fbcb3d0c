import LeveledLog.Proofs.Handoff.Effort
import LeveledLog.Proofs.Logger.Merge
import LeveledLog.Proofs.Logger.Outcomes
import LeveledLog.Proofs.Logger.Progress

/-!
A logger to which nothing new comes settles. Whatever the order of the steps, and however the writes
end, there are only so many left, and when nobody can go on any more every call has been answered,
unless the worker has ended. That somebody who can go on does so is the scheduler's part, and so is
a write that never ends.
-/

namespace LeveledLog

/-- What a task costs, the steps of its hand-off among so many threads included. -/
def toll (n : Nat) : Nat := 4 * n + 14

def Ending.effort : Ending → Nat
  | .exit streams => streams.length + 1
  | _ => 0

/-- More than the steps of a call that are left, but for those at the hand-off. -/
def Progress.effort (n : Nat) : Progress → Nat
  | .idle => 0
  | .deciding i _ => 3 * toll n + i.streams.length + 4
  | .composing i => 3 * toll n + i.streams.length + 3
  | .handing tasks ending _ => tasks.length * toll n + ending.effort + 1
  | .sending _ tasks ending _ => tasks.length * toll n + ending.effort + 3
  | .awaiting _ tasks ending _ => tasks.length * toll n + ending.effort + 2
  | .flushing streams _ _ => streams.length + 1
  | .done _ _ => 0

/-- Less the closer the worker is to its next receive, which itself takes four off the effort at the
hand-off. -/
def WorkerPhase.effort : WorkerPhase → Nat
  | .receiving => 10
  | .writing _ => 9
  | .flushing _ => 8
  | .reporting _ => 7
  | .ended _ => 6

namespace Logger

def State.effort (S : Finset Thread) (s : State) : Nat :=
  ∑ t ∈ S, (s.callers t).effort S.card + s.channel.effort S + s.worker.effort

/-- All threads with a call that is going on are among these, and so is the worker. -/
structure Crew (S : Finset Thread) (s : State) : Prop where
  own : s.own ∈ S
  others : ∀ t, t ∉ S → s.callers t = .idle

def Event.goes : Event → Bool
  | .caller _ => true
  | .worker _ => true
  | _ => false

def Event.begins : Event → Bool
  | .start _ _ => true
  | _ => false

def goings (es : List (Stamp × Event)) : Nat := es.countP fun e => e.2.goes

structure Still (s : State) : Prop where
  callers : ∀ t, ¬Enabled s (.caller t)
  worker : ∀ outcome, ¬Enabled s (.worker outcome)

section

variable {now : Stamp} {s u : State} {e : Event} {S : Finset Thread} {t : Thread} {p : Progress}

theorem begun_of_quiet (h : e.begins = false) (t : Thread) : begun t e = [] := by
  cases e <;> first | rfl | cases h

theorem move_own (hm : Move now s e u) : u.own = s.own := by
  cases hm <;> rfl

theorem reachable_crew (h : Reachable s) : ∃ S, Crew S s := by
  obtain ⟨S, hS⟩ : ∃ S : Finset Thread, ∀ t, t ∉ S → s.callers t = .idle := by
    refine reachable_keeps (I := fun s => ∃ S : Finset Thread, ∀ t, t ∉ S → s.callers t = .idle)
      ?_ ?_ h
    · intro number mode o
      exact ⟨∅, fun _ _ => rfl⟩
    · rintro now s e u hm _ ⟨S, hS⟩
      refine ⟨S ∪ e.caller?.toFinset, fun t ht => ?_⟩
      simp only [Finset.mem_union, Option.mem_toFinset, Option.mem_def, not_or] at ht
      rw [move_callers hm ht.2]
      exact hS t ht.1
  refine ⟨insert s.own S, Finset.mem_insert_self _ _, fun t ht => hS t ?_⟩
  exact fun hmem => ht (Finset.mem_insert_of_mem hmem)

theorem move_keeps_crew (hm : Move now s e u) (hquiet : e.begins = false) (h : Crew S s) :
    Crew S u := by
  refine ⟨move_own hm ▸ h.own, fun t ht => ?_⟩
  rcases move_idle hm (h.others t ht) with ⟨idle, _⟩ | ⟨i, hbegun, _⟩
  · exact idle
  · rw [begun_of_quiet hquiet] at hbegun
    cases hbegun

theorem Crew.mem (h : Crew S s) (hp : s.callers t = p) (hne : p ≠ .idle) : t ∈ S := by
  by_contra ht
  exact hne (hp.symm.trans (h.others t ht))

theorem lineOf_length (o : Options) (now : Stamp) (frames : Stack) (depth : Nat)
    (level : Priority) (message : List CodePoint) :
    (Plan.lineOf o now frames depth level message).length ≤ 1 := by
  unfold Plan.lineOf
  split <;> simp

theorem lastWords_length (o : Options) (now : Stamp) (frames : Stack) (message : List CodePoint)
    (depth : Nat) : (Plan.lastWords o now frames message depth).length ≤ 3 := by
  have hline := lineOf_length o now frames 2 .emergency message
  simp only [Plan.lastWords, List.length_append, List.length_cons, List.length_nil]
  omega

theorem output_length {o : Options} {stack : Stack} {depth priority message : Value}
    {tasks : List Task}
    (h : (Plan.output o now stack depth priority message).outcome = .ok tasks) :
    tasks.length ≤ 1 := by
  unfold Plan.output at h
  split at h
  · obtain rfl := Except.ok.inj h
    exact Nat.zero_le 1
  · rw [← bind_assoc] at h
    obtain ⟨line, _, rfl⟩ := Render.of_outcome_ok h
    exact Nat.le_refl 1

theorem backtrace_length {stack : Stack} {depth : Value} {tasks : List Task}
    (h : (Plan.backtrace stack depth).outcome = .ok tasks) : tasks.length ≤ 1 := by
  obtain ⟨d, _, rfl⟩ := Render.of_outcome_ok h
  exact Nat.le_refl 1

/-- A plan has at most three tasks, and ends the program only as the call asks for it. -/
theorem plan_effort {o o' : Options} {i : Invocation} {plan : Plan} {looks : Nat}
    (made : (Plan.make o now i).run.run 0 = (.ok (o', plan), looks)) :
    plan.tasks.length ≤ 3 ∧ plan.ending.effort ≤ i.streams.length + 1 := by
  have hline := lineOf_length o now
  have ho : (Plan.make o now i).outcome = .ok (o', plan) := by rw [Render.outcome, made]
  unfold Plan.make at ho
  cases hc : i.call <;> rw [hc] at ho
  case sync | setPrefix =>
    obtain ⟨-, rfl⟩ := Prod.mk.inj (Except.ok.inj ho)
    simp [Ending.effort, Plan.ofTasks]
  case output =>
    obtain ⟨tasks, htasks, hp⟩ := Render.of_outcome_ok ho
    obtain ⟨-, rfl⟩ := Prod.mk.inj hp
    exact ⟨Nat.le_trans (output_length htasks) (by decide), Nat.zero_le _⟩
  case backtrace =>
    obtain ⟨tasks, htasks, hp⟩ := Render.of_outcome_ok ho
    obtain ⟨-, rfl⟩ := Prod.mk.inj hp
    exact ⟨Nat.le_trans (backtrace_length htasks) (by decide), Nat.zero_le _⟩
  case leveled | printf | print =>
    obtain ⟨m, _, hp⟩ := Render.of_outcome_ok ho
    obtain ⟨-, rfl⟩ := Prod.mk.inj hp
    exact ⟨Nat.le_trans (hline _ _ _ _) (by decide), Nat.zero_le _⟩
  case panic | fatal =>
    obtain ⟨m, _, hp⟩ := Render.of_outcome_ok ho
    obtain ⟨-, rfl⟩ := Prod.mk.inj hp
    exact ⟨lastWords_length _ _ _ _ _, by simp [Ending.effort]⟩
  case setPriority | setFlags =>
    obtain ⟨v, _, hp⟩ := Render.of_outcome_ok ho
    obtain ⟨-, rfl⟩ := Prod.mk.inj hp
    simp [Ending.effort, Plan.ofTasks]

theorem finish_effort (n : Nat) (ending : Ending) (looks : Nat) :
    (finish ending looks).effort n = ending.effort := by
  cases ending <;> rfl

theorem flushNext_effort (n : Nat) (streams : List Stream) (flushed : List String) (looks : Nat) :
    (flushNext streams flushed looks).effort n ≤ streams.length := by
  unfold flushNext
  repeat' split
  all_goals simp [Progress.effort]

/-- A thread goes on with its call, alone or with a step at the hand-off. -/
theorem caller_effort (ht : t ∈ S) {old : Progress} (hold : s.callers t = old)
    (hcallers : u.callers = update s.callers t p) (hworker : u.worker = s.worker)
    (hless : p.effort S.card + u.channel.effort S < old.effort S.card + s.channel.effort S) :
    u.effort S < s.effort S := by
  have hsum := sum_update ht (Progress.effort S.card) s.callers p
  rw [hold] at hsum
  simp only [State.effort, hcallers, hworker]
  omega

theorem worker_effort (hcallers : u.callers = s.callers)
    (hless : u.worker.effort + u.channel.effort S < s.worker.effort + s.channel.effort S) :
    u.effort S < s.effort S := by
  simp only [State.effort, hcallers]
  omega

theorem receive_effort (hown : s.own ∈ S) (hrest : (s.channel.phase s.own).AtRest)
    (hcallers : u.callers = s.callers) (hworker : u.worker = .receiving)
    (hchannel : u.channel = (receive s).channel) (hphase : 7 ≤ s.worker.effort) :
    u.effort S < s.effort S := by
  have hless : u.channel.effort S + 4 = s.channel.effort S := by
    rw [hchannel]
    exact Handoff.receive_effort hown (Handoff.move_of_enabled (e := .receive s.own) hrest)
  refine worker_effort hcallers ?_
  rw [hworker, WorkerPhase.effort]
  omega

/-- Going on with a call, or with the work, makes less of what there is to do. -/
theorem move_effort (hm : Move now s e u) (hs : Sound s) (h : Crew S s)
    (hgoes : e.goes = true) : u.effort S < s.effort S := by
  have hstep : ∀ {t}, t ∈ S → Handoff.Enabled s.channel (.step t) →
      (Handoff.next s.channel (.step t)).effort S < s.channel.effort S :=
    fun ht he => Handoff.step_effort ht (Handoff.move_of_enabled he)
  have hsend : ∀ {t x}, t ∈ S → Handoff.Enabled s.channel (.send t x) →
      (Handoff.next s.channel (.send t x)).effort S = s.channel.effort S + (4 * S.card + 11) :=
    fun ht he => Handoff.send_effort ht (Handoff.move_of_enabled he)
  cases hm with
  | drop w | refuse w | pass w | cross w =>
    refine caller_effort (h.mem w (by simp)) w rfl rfl ?_
    simp only [Progress.effort, set_channel]
    omega
  | compose w made =>
    obtain ⟨htasks, hending⟩ := plan_effort made
    have hcost := Nat.mul_le_mul_right (toll S.card) htasks
    refine caller_effort (h.mem w (by simp)) w rfl rfl ?_
    simp only [Progress.effort, set_channel]
    omega
  | finish w =>
    refine caller_effort (h.mem w (by simp)) w rfl rfl ?_
    rw [finish_effort]
    simp only [Progress.effort, set_channel]
    omega
  | flushStream w =>
    have hrest := flushNext_effort S.card
    refine caller_effort (h.mem w (by simp)) w rfl rfl ?_
    refine Nat.add_lt_add_right (Nat.lt_succ_of_le (hrest _ _ _)) _
  | handLine w | handBarrier w =>
    have ht := h.mem w (by simp)
    have hmore := fun x => hsend ht (hs.coupled.hand_enabled w x)
    refine caller_effort ht w rfl rfl ?_
    simp only [Progress.effort, set_channel, hmore, List.length_cons, Nat.add_mul, toll]
    omega
  | send w ready =>
    have ht := h.mem w (by simp)
    have hless := hstep ht ready
    refine caller_effort ht w (update_eq_self w).symm rfl ?_
    exact Nat.add_lt_add_left hless _
  | sentLine w ready | sentBarrier w ready =>
    have ht := h.mem w (by simp)
    have hless := hstep ht ready
    refine caller_effort ht w rfl rfl ?_
    simp only [Progress.effort, set_channel]
    omega
  | reported w | flushed w =>
    exact receive_effort h.own (hs.coupled.worker_rest (by simp [w])) rfl rfl rfl
      (by simp [w, WorkerPhase.effort])
  | release w received =>
    exact receive_effort h.own (by simp only [received]; trivial) rfl rfl rfl
      (by simp [w, WorkerPhase.effort])
  | take w ready => exact worker_effort rfl (Nat.add_lt_add_left (hstep h.own ready) _)
  | write w | lose w | written w | writeFailed w | writeEnded w | flushFailed w | flushEnded w =>
    refine worker_effort rfl ?_
    rw [w]
    simp only [WorkerPhase.effort, report, giveUp]
    omega
  | start | collect | ownCall => cases hgoes

theorem other_effort (hm : Move now s e u) (h : Crew S s) (hquiet : e.begins = false)
    (hgoes : e.goes = false) : u.effort S = s.effort S := by
  cases hm with
  | collect w =>
    have hsum := sum_update (h.mem w (by simp)) (Progress.effort S.card) s.callers .idle
    rw [w] at hsum
    refine congrArg (· + s.channel.effort S + s.worker.effort) hsum
  | ownCall => rfl
  | start => cases hquiet
  | _ => cases hgoes

/-- Where nobody can go on, nobody waits for an answer, unless the worker has ended. -/
theorem still_finished (hr : Reachable s) (h : Still s) (alive : ¬Ended s.worker) (t : Thread) :
    Finished (s.callers t) := by
  have hs := reachable_sound hr
  have away : ¬AtDestination s.worker := by
    intro hw
    refine h.worker none ?_
    change WorkerCanStep s s.worker
    cases hp : s.worker <;> rw [hp] at hw <;> trivial
  have hstuck : ¬Moves s := by
    rintro (⟨q, hq⟩ | ⟨_, hw⟩)
    · exact h.callers q hq
    · exact h.worker none hw
  have hcaller : ¬CallerCanStep s t (s.callers t) := h.callers t
  cases hp : s.callers t <;> rw [hp] at hcaller
  case idle => exact .inl trivial
  case done => exact .inr trivial
  case sending => exact absurd (sending_moves hs away alive hp) hstuck
  case awaiting =>
    obtain ⟨handled, hd⟩ := reachable_delivered hr
    exact absurd (awaiting_moves hs away alive (reachable_numbered hr) hd hp) hstuck
  all_goals exact absurd trivial hcaller

theorem Spent.ne_idle (h : Spent p) : p ≠ .idle := by
  rintro rfl
  exact h

theorem Advance.busy {q : Progress} (ha : Advance now s t e p q) (he : e ≠ .collect t) :
    q ≠ .idle := by
  cases ha with
  | @start i => rcases begin_cases i with ⟨h, _⟩ | ⟨l, _, _, h, _⟩ <;> simp [h]
  | collect => exact absurd rfl he
  | finish => exact (finish_spent _ _).ne_idle
  | flushStream => exact (flushNext_spent _ _ _).ne_idle
  | _ => simp

theorem move_busy (hm : Move now s e u) (hp : s.callers t ≠ .idle) (he : e ≠ .collect t) :
    u.callers t ≠ .idle := by
  by_cases ht : e.caller? = some t
  · exact (move_advance hm ht).busy he
  · rw [move_callers hm ht]
    exact hp

end

section

variable {s : State} {es : List (Stamp × Event)} {S : Finset Thread}

theorem run_effort (hr : Reachable s) (hcrew : Crew S s) (h : machine.Valid s es)
    (quiet : ∀ e ∈ es, e.2.begins = false) :
    Crew S (machine.after s es) ∧ (machine.after s es).effort S + goings es ≤ s.effort S := by
  induction es, h using Machine.run_induction with
  | nil => exact ⟨hcrew, Nat.le_refl _⟩
  | snoc es e hes he ih =>
    obtain ⟨hmid, hle⟩ := ih fun e' he' => quiet e' (List.mem_append_left _ he')
    have hquiet := quiet e (by simp)
    have hm := machine_move he
    rw [Machine.after_append, goings, List.countP_append, ← goings]
    refine ⟨move_keeps_crew hm hquiet hmid, ?_⟩
    cases hgoes : e.2.goes with
    | true =>
      have hless := move_effort hm (reachable_sound (hr.run hes)) hmid hgoes
      simp only [Machine.after, List.countP_singleton, hgoes, if_true]
      omega
    | false =>
      have hsame := other_effort hm hmid hquiet hgoes
      simp only [Machine.after, List.countP_singleton, hgoes, Bool.false_eq_true, if_false]
      omega

/-- From every state there are only so many steps left, unless something new begins. -/
theorem run_settles (hr : Reachable s) : ∃ bound, ∀ es, machine.Valid s es →
    (∀ e ∈ es, e.2.begins = false) → goings es ≤ bound := by
  obtain ⟨S, hcrew⟩ := reachable_crew hr
  refine ⟨s.effort S, fun es h quiet => ?_⟩
  have hle := (run_effort hr hcrew h quiet).2
  omega

theorem run_busy (h : machine.Valid s es) {t : Thread} (busy : s.callers t ≠ .idle)
    (uncollected : ∀ e ∈ es, e.2 ≠ .collect t) : (machine.after s es).callers t ≠ .idle := by
  induction es, h using Machine.run_induction with
  | nil => exact busy
  | snoc es e hes he ih =>
    rw [Machine.after_append]
    refine move_busy (machine_move he) (ih fun e' he' => uncollected e' ?_) (uncollected e ?_)
    · exact List.mem_append_left _ he'
    · simp

theorem started_quiet (quiet : ∀ e ∈ es, e.2.begins = false) (t : Thread) : started t es = [] :=
  List.flatMap_eq_nil_iff.mpr fun e he => begun_of_quiet (quiet e he) t

end

section

variable {number : Nat} {mode : Mode} {o : Options} {es rest : List (Stamp × Event)} {t : Thread}
  {i : Invocation}

theorem latest_quiet (quiet : ∀ e ∈ rest, e.2.begins = false) :
    latest t (es ++ rest) = latest t es := by
  have hnone := started_quiet quiet t
  rw [started] at hnone
  rw [latest, latest, started, List.flatMap_append, hnone, List.append_nil, ← started]

/-- Once nobody can go on, a call that was going on has an answer. -/
theorem run_answered (h : machine.Valid (initial number mode o) (es ++ rest))
    (busy : ¬IsIdle ((machine.after (initial number mode o) es).callers t))
    (uncollected : ∀ e ∈ rest, e.2 ≠ .collect t)
    (still : Still (machine.after (initial number mode o) (es ++ rest)))
    (alive : ¬Ended (machine.after (initial number mode o) (es ++ rest)).worker) :
    IsDone ((machine.after (initial number mode o) (es ++ rest)).callers t) := by
  have hrest := ((machine.valid_append _ _ _).mp h).2
  have hgoing := run_busy hrest (mt isIdle_iff.mpr busy) uncollected
  rw [← Machine.after_append] at hgoing
  rcases still_finished (reachable_of_valid h) still alive t with idle | done
  · exact absurd (isIdle_iff.mp idle) hgoing
  · exact done

/-- Once nobody can go on, a call that waited has answered that it has. -/
theorem run_sync_answered (h : machine.Valid (initial number mode o) (es ++ rest))
    (hlatest : latest t es = some i) (hc : i.call = .sync)
    (busy : ¬IsIdle ((machine.after (initial number mode o) es).callers t))
    (quiet : ∀ e ∈ rest, e.2.begins = false) (uncollected : ∀ e ∈ rest, e.2 ≠ .collect t)
    (still : Still (machine.after (initial number mode o) (es ++ rest)))
    (alive : ¬Ended (machine.after (initial number mode o) (es ++ rest)).worker) :
    ∃ looks, (machine.after (initial number mode o) (es ++ rest)).callers t =
      .done (.returned (.bool true)) looks := by
  obtain ⟨outcome, looks, hdone⟩ := isDone_iff.mp (run_answered h busy uncollected still alive)
  have hanswers := run_answers h ((latest_quiet quiet).trans hlatest) hdone
  exact ⟨looks, hanswers.sync hc ▸ hdone⟩

end

end Logger

end LeveledLog
