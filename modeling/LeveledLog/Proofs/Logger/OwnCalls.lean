import LeveledLog.Proofs.Logger.Beside
import LeveledLog.Proofs.Logger.Merge
import LeveledLog.Proofs.Logger.Outcomes
import LeveledLog.Proofs.Logger.Results

/-!
Calls of a logger from its own worker, as from a handler of the worker's diagnostics or from the
destination. As long as they only log and wait, they hand nothing off, wait for nothing and report
nothing, and leaving them out changes nothing else. What a handler does with a fault of such a call
is its own matter.
-/

namespace LeveledLog

/-- A call that emits or waits, and neither assigns an option nor ends anything. -/
def Call.Logs : Call → Prop
  | .sync => True
  | c => c.Emits

instance (c : Call) : Decidable c.Logs :=
  match c with
  | .sync | .leveled _ _ _ | .printf _ _ | .print _ | .output _ _ _ | .backtrace _ => isTrue trivial
  | .panic _ _ | .fatal _ _ | .setPriority _ | .setFlags _ | .setPrefix _ => isFalse id

namespace Logger

def OwnLogs : Event → Prop
  | .ownCall i => i.call.Logs
  | _ => True

instance (e : Event) : Decidable (OwnLogs e) :=
  match e with
  | .ownCall i => inferInstanceAs (Decidable i.call.Logs)
  | .start _ _ | .caller _ | .worker _ | .collect _ => isTrue trivial

def Event.isOwn : Event → Bool
  | .ownCall _ => true
  | _ => false

def withoutOwn (es : List (Stamp × Event)) : List (Stamp × Event) := es.filter fun e => !e.2.isOwn

def ownAnswer (s : State) (e : Stamp × Event) : List (Invocation × Outcome) :=
  match e.2 with
  | .ownCall i => [(i, (ownCall s e.1 i).2.1)]
  | _ => []

def ownAnswers (s : State) (es : List (Stamp × Event)) : List (Invocation × Outcome) :=
  machine.history ownAnswer s es

def State.withOwn (s : State) (os : List Outcome) : State := s.beside s.worker s.diagnostics os

section

variable {now : Stamp} {s : State} {i : Invocation}

theorem logs_settings (h : i.call.Logs) (o : Options) : Direct.settings o i = o := by
  unfold Direct.settings Direct.assigned
  cases hc : i.call <;> rw [hc] at h <;> first | rfl | exact h.elim

theorem own_call_keeps (h : ∀ o, Direct.settings o i = o) : (ownCall s now i).1 = s := by
  unfold ownCall
  dsimp only
  split_ifs
  · rfl
  · cases hmade : (Plan.make s.options now i).run.run 0 with
    | mk made looks =>
      cases made with
      | error f => rfl
      | ok made =>
        have ho : made.1 = s.options := by
          rw [(plan_of_made hmade).2, h]
        simp only [ho]

theorem own_call_state (h : i.call.Logs) : (ownCall s now i).1 = s :=
  own_call_keeps (logs_settings h)

theorem own_sync_outcome (h : i.call = .sync) :
    (ownCall s now i).2.1 = .returned (.bool false) := by
  have made : (Plan.make s.options now i).run.run 0 =
      (.ok (s.options, ⟨[.barrier], .value (.bool true)⟩), 0) := by
    rw [Plan.make, h]
    rfl
  simp only [ownCall, made, h]
  rfl

theorem next_own_call (h : i.call.Logs) :
    next now s (.ownCall i) = s.withOwn (s.ownOutcomes ++ [(ownCall s now i).2.1]) := by
  simp only [next, own_call_state h]
  rfl

theorem worker_step_withOwn (s : State) (os : List Outcome) (outcome : Option Fault)
    (w : WorkerPhase) :
    workerStep (s.withOwn os) outcome w = (workerStep s outcome w).withOwn os := by
  cases w with
  | reporting d => rfl
  | receiving =>
    have hphase : (s.withOwn os).channel.phase (s.withOwn os).own = s.channel.phase s.own := rfl
    simp only [workerStep, hphase]
    cases s.channel.phase s.own with
    | received x =>
      cases x with
      | line l =>
        rw [apply_ite (State.withOwn · os)]
        rfl
      | barrier b => rfl
    | _ => rfl
  | writing l | flushing l =>
    cases outcome with
    | none => rfl
    | some f =>
      rw [workerStep, workerStep, fail, fail, apply_ite (State.withOwn · os)]
      rfl
  | ended lost => rfl

theorem worker_can_step_withOwn (s : State) (os : List Outcome) :
    WorkerCanStep (s.withOwn os) s.worker ↔ WorkerCanStep s s.worker := by
  cases s.worker <;> rfl

theorem next_withOwn (now : Stamp) (s : State) {e : Event} (os : List Outcome)
    (he : e.isOwn = false) :
    (Enabled (s.withOwn os) e ↔ Enabled s e) ∧
      next now (s.withOwn os) e = (next now s e).withOwn os := by
  have hcaller : ∀ t, e.caller? = some t →
      (Enabled (s.withOwn os) e ↔ Enabled s e) ∧
        next now (s.withOwn os) e = (next now s e).withOwn os := by
    intro t ht
    refine ⟨enabled_beside s _ _ os ht, ?_⟩
    rw [State.withOwn, next_beside s _ _ os now ht, State.withOwn, next_caller_self s now ht]
    rfl
  cases e with
  | start t | caller t | collect t => exact hcaller t rfl
  | worker outcome =>
    exact ⟨worker_can_step_withOwn s os, worker_step_withOwn s os outcome s.worker⟩
  | ownCall i => cases he

theorem withoutOwn_step {s : State} {e : Stamp × Event} (logs : OwnLogs e.2)
    (he : machine.Enabled s e) :
    machine.Valid (s.withOwn []) (if !e.2.isOwn then [e] else []) ∧
      machine.after (s.withOwn []) (if !e.2.isOwn then [e] else []) =
        (machine.next s e).withOwn [] := by
  obtain ⟨now, e⟩ := e
  cases hown : e.isOwn with
  | true =>
    cases e with
    | ownCall i =>
      refine ⟨trivial, ?_⟩
      change s.withOwn [] = (next now s (.ownCall i)).withOwn []
      rw [next_own_call logs]
      rfl
    | _ => cases hown
  | false =>
    obtain ⟨henabled, hnext⟩ := next_withOwn now s [] hown
    exact ⟨⟨henabled.mpr he, trivial⟩, hnext⟩

end

section

variable {number : Nat} {mode : Mode} {o : Options} {es : List (Stamp × Event)}

theorem run_withoutOwn (h : machine.Valid (initial number mode o) es)
    (logs : ∀ e ∈ es, OwnLogs e.2) :
    machine.Valid (initial number mode o) (withoutOwn es) ∧
      machine.after (initial number mode o) (withoutOwn es) =
        (machine.after (initial number mode o) es).withOwn [] := by
  have hrun := Machine.run_translated (fun _ _ => withoutOwn_step) h logs
  rw [machine.history_filter fun e => !e.2.isOwn] at hrun
  exact hrun

theorem run_results_withoutOwn (h : machine.Valid (initial number mode o) es)
    (logs : ∀ e ∈ es, OwnLogs e.2) :
    results (initial number mode o) (withoutOwn es) = results (initial number mode o) es := by
  have hnoted : ∀ (s : State) (e : Stamp × Event), OwnLogs e.2 → machine.Enabled s e →
      machine.history ended (s.withOwn []) (if !e.2.isOwn then [e] else []) = ended s e := by
    rintro s ⟨now, e⟩ _ _
    cases e with
    | worker outcome => exact List.append_nil _
    | _ => rfl
  have hrun := Machine.history_translated (fun _ _ logs he => (withoutOwn_step logs he).2)
    hnoted h logs
  rw [machine.history_filter fun e => !e.2.isOwn] at hrun
  exact hrun

theorem next_own_answers (now : Stamp) (s : State) (e : Event) :
    (next now s e).ownOutcomes = s.ownOutcomes ++ (ownAnswer s (now, e)).map Prod.snd := by
  cases hown : e.isOwn with
  | true =>
    cases e with
    | ownCall i =>
      have hself : (ownCall s now i).1.ownOutcomes = s.ownOutcomes :=
        congrArg (·.1.ownOutcomes) (own_call_beside s s.worker s.diagnostics s.ownOutcomes now i)
      simp only [next, ownAnswer, hself]
      rfl
    | _ => cases hown
  | false =>
    have hself := congrArg State.ownOutcomes (next_withOwn now s s.ownOutcomes hown).2
    have hnone : ownAnswer s (now, e) = [] := by
      cases e <;> first | rfl | cases hown
    rw [hnone]
    exact hself.trans (List.append_nil _).symm

theorem run_own_answers (h : machine.Valid (initial number mode o) es) :
    (machine.after (initial number mode o) es).ownOutcomes =
      (ownAnswers (initial number mode o) es).map Prod.snd := by
  refine Machine.history_induction
    (I := fun s past => s.ownOutcomes = past.map Prod.snd) rfl ?_ h
  intro es e _ _ ih
  rw [List.map_append, ← ih]
  exact next_own_answers e.1 (machine.after (initial number mode o) es) e.2

theorem own_syncs_false (s : State) (es : List (Stamp × Event)) :
    ∀ c ∈ ownAnswers s es, c.1.call = .sync → c.2 = .returned (.bool false) := by
  refine machine.history_forall ?_ s es
  rintro s ⟨now, e⟩ c hc hsync
  cases e with
  | ownCall i =>
    obtain rfl := List.mem_singleton.mp hc
    exact own_sync_outcome hsync
  | _ => cases hc

structure Dropped (number : Nat) (mode : Mode) (o : Options) (es : List (Stamp × Event))
    (s : State) : Prop where
  /-- An own call of the worker hands nothing off and leaves all as it was but for the record of
  its outcome, and the worker can go on. -/
  kept : ∀ before now i rest, es = before ++ (now, .ownCall i) :: rest →
    let mid := machine.after (initial number mode o) before
    next now mid (.ownCall i) = mid.withOwn (mid.ownOutcomes ++ [(ownCall mid now i).2.1]) ∧
      ∀ outcome, Enabled (next now mid (.ownCall i)) (.worker outcome)
  /-- Such a call that waits has not waited. -/
  answers : s.ownOutcomes = (ownAnswers (initial number mode o) es).map Prod.snd ∧
    ∀ c ∈ ownAnswers (initial number mode o) es, c.1.call = .sync → c.2 = .returned (.bool false)
  /-- Each line that failed makes one diagnostic, unless the worker ended with it, and nothing else
  does. -/
  diagnosed : s.diagnostics =
    .started :: (results (initial number mode o) es).filterMap failure?
  /-- The run without these calls ends in the same state, but for their outcomes. -/
  without : machine.Valid (initial number mode o) (withoutOwn es) ∧
    machine.after (initial number mode o) (withoutOwn es) = s.withOwn [] ∧
    results (initial number mode o) (withoutOwn es) = results (initial number mode o) es

end

/-- A write fails, the handler of its diagnostic logs it and waits, and a second line comes. -/
def echo : List (Stamp × Event) :=
  let logs (text : String) : List Event :=
    [.start (.caller 0) ⟨.leveled .info (.text text) [], [], [], .usual⟩]
  let step (k : Nat) : List Event := List.replicate k (.caller (.caller 0))
  let work (k : Nat) : List Event := List.replicate k (.worker none)
  let handler : List Event :=
    [.ownCall ⟨.leveled .warning (.text "diag: lost") [], [], [], .usual⟩,
      .ownCall ⟨.sync, [], [], .usual⟩]
  let events : List Event :=
    work 3 ++ logs "lost" ++ step 7 ++ work 2 ++ step 3 ++ work 1 ++
      [.worker (some (.scripted .system))] ++ handler ++ work 3 ++ step 1 ++
      [.collect (.caller 0)] ++ logs "kept" ++ step 7 ++ work 2 ++ step 3 ++ work 3
  events.map (⟨2024, 5, 6, 7, 8, 9, 1234⟩, ·)

end Logger

end LeveledLog
