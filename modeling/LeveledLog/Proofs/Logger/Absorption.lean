import LeveledLog.Proofs.Logger.Beside
import LeveledLog.Proofs.Logger.Results
import LeveledLog.Proofs.Logger.Settling
import LeveledLog.World.Schedule

/-!
What comes of writes and flushes that fail: a diagnostic each, and nothing else. To each run there
is one in which the same is done and no write or flush fails; it writes the same lines in the same
order, and no thread can tell the two apart. A line that ends the worker ends it in both. A fault
that ends the worker is left out.
-/

namespace LeveledLog

def WorkerPhase.calm : WorkerPhase → WorkerPhase
  | .reporting (.failed l _) => .flushing l
  | w => w

namespace Logger

def State.calm (s : State) : State := s.beside s.worker.calm [.started] s.ownOutcomes

/-- What comes instead of an event if nothing fails. A flush that failed ends there only when its
diagnostic has been handled. -/
def calmed (s : State) (e : Stamp × Event) : List (Stamp × Event) :=
  match e.2, s.worker with
  | .worker (some _), .flushing _ => []
  | .worker _, _ => [(e.1, .worker none)]
  | _, _ => [e]

def calmRun (s : State) (es : List (Stamp × Event)) : List (Stamp × Event) :=
  machine.history calmed s es

def State.warnings (s : State) : Nat :=
  s.diagnostics.countP fun d => World.reportLevel d = .warning

def Event.fails : Event → Bool
  | .worker (some _) => true
  | _ => false

def Event.ofWorker : Event → Bool
  | .worker _ => true
  | _ => false

section

variable {now : Stamp} {s : State} {e : Event}

theorem calmed_other (he : e.ofWorker = false) : calmed s (now, e) = [(now, e)] := by
  cases e <;> first | rfl | cases he

theorem calmed_worker (now : Stamp) (s : State) (he : e.ofWorker = true) :
    calmed s (now, e) = [] ∨ calmed s (now, e) = [(now, .worker none)] := by
  unfold calmed
  cases e with
  | worker outcome => split <;> simp_all
  | _ => cases he

theorem busy_calm : Busy s.calm.worker ↔ Busy s.worker := by
  change Busy s.worker.calm ↔ Busy s.worker
  cases s.worker with
  | reporting d => cases d <;> exact Iff.rfl
  | _ => exact Iff.rfl

theorem caller_calm {t : Thread} (he : e.caller? = some t) :
    next now s.calm e = (next now s e).calm := by
  have hself := next_caller_self s now he
  have hnext := next_beside s s.worker.calm [.started] s.ownOutcomes now he
  rw [hself]
  exact hnext

theorem own_call_calm (i : Invocation) :
    next now s.calm (.ownCall i) = (next now s (.ownCall i)).calm := by
  have hself : (ownCall s now i).1.worker = s.worker :=
    congrArg (·.1.worker) (own_call_beside s s.worker s.diagnostics s.ownOutcomes now i)
  have hown : (ownCall s now i).1.ownOutcomes = s.ownOutcomes :=
    congrArg (·.1.ownOutcomes) (own_call_beside s s.worker s.diagnostics s.ownOutcomes now i)
  have hcalm : ownCall s.calm now i =
      ((ownCall s now i).1.beside s.worker.calm [.started] s.ownOutcomes, (ownCall s now i).2) :=
    own_call_beside s s.worker.calm [.started] s.ownOutcomes now i
  simp only [next, hcalm]
  simp only [State.calm, hself, hown]
  rfl

/-- An event that the worker goes on with, and the one that comes instead. -/
theorem worker_calm {outcome : Option Fault} (handled : (Event.worker outcome).isHandled = true)
    (h : WorkerCanStep s s.worker) :
    machine.Valid s.calm (calmed s (now, .worker outcome)) ∧
      machine.after s.calm (calmed s (now, .worker outcome)) =
        (workerStep s outcome s.worker).calm := by
  have hone : calmed s (now, .worker outcome) = [(now, .worker none)] →
      WorkerCanStep s.calm s.worker.calm →
      workerStep s.calm none s.worker.calm = (workerStep s outcome s.worker).calm →
      machine.Valid s.calm (calmed s (now, .worker outcome)) ∧
        machine.after s.calm (calmed s (now, .worker outcome)) =
          (workerStep s outcome s.worker).calm := by
    intro hevent hcan hnext
    rw [hevent]
    exact ⟨⟨hcan, trivial⟩, hnext⟩
  cases hw : s.worker with
  | reporting d =>
    rw [hw] at hone
    cases d <;> exact hone (by simp [calmed, hw]) trivial rfl
  | receiving =>
    rw [hw] at hone h
    refine hone (by simp [calmed, hw]) h ?_
    have hphase : s.calm.channel.phase s.calm.own = s.channel.phase s.own := rfl
    simp only [WorkerPhase.calm, workerStep, hphase]
    cases s.channel.phase s.own with
    | received x =>
      cases x with
      | line l =>
        rw [apply_ite State.calm]
        rfl
      | barrier b => rfl
    | _ => rfl
  | writing l =>
    rw [hw] at hone
    cases outcome with
    | none => exact hone rfl trivial rfl
    | some f =>
      have reported : ¬f.isAbrupt = true := by simpa [Event.isHandled] using handled
      refine hone (by simp [calmed, hw]) trivial ?_
      simp only [workerStep, fail, if_neg reported]
      rfl
  | ended lost =>
    rw [hw] at h
    exact h.elim
  | flushing l =>
    rw [hw] at hone
    cases outcome with
    | none => exact hone rfl trivial rfl
    | some f =>
      have reported : ¬f.isAbrupt = true := by simpa [Event.isHandled] using handled
      simp only [workerStep, fail, if_neg reported]
      have hevent : calmed s (now, .worker (some f)) = [] := by simp [calmed, hw]
      rw [hevent]
      refine ⟨trivial, ?_⟩
      change s.beside s.worker.calm [.started] s.ownOutcomes =
        s.beside (.flushing l) [.started] s.ownOutcomes
      rw [hw]
      rfl

theorem calm_step {e : Stamp × Event} (handled : e.2.isHandled = true)
    (he : machine.Enabled s e) :
    machine.Valid s.calm (calmed s e) ∧
      machine.after s.calm (calmed s e) = (machine.next s e).calm := by
  obtain ⟨now, e⟩ := e
  have hsame : e.ofWorker = false → (Enabled s.calm e ↔ Enabled s e) →
      next now s.calm e = (next now s e).calm →
      machine.Valid s.calm (calmed s (now, e)) ∧
        machine.after s.calm (calmed s (now, e)) = (next now s e).calm := by
    intro hother henabled hnext
    rw [calmed_other hother]
    exact ⟨⟨henabled.mpr he, trivial⟩, hnext⟩
  cases e with
  | start t | caller t | collect t =>
    exact hsame rfl (enabled_beside s _ _ _ rfl) (caller_calm rfl)
  | ownCall i => exact hsame rfl busy_calm (own_call_calm i)
  | worker outcome => exact worker_calm handled he

theorem calmed_calm (s : State) (e : Stamp × Event) : ∀ c ∈ calmed s e, c.2.fails = false := by
  obtain ⟨now, e⟩ := e
  intro c hc
  cases hw : e.ofWorker with
  | false =>
    rw [calmed_other hw, List.mem_singleton] at hc
    subst c
    cases e <;> first | rfl | cases hw
  | true =>
    rcases calmed_worker now s hw with hnone | hone
    · rw [hnone] at hc
      cases hc
    · rw [hone, List.mem_singleton] at hc
      subst c
      rfl

theorem calmed_others (s : State) (e : Stamp × Event) :
    (calmed s e).filter (fun c => !c.2.ofWorker) = if !e.2.ofWorker then [e] else [] := by
  obtain ⟨now, e⟩ := e
  cases hw : e.ofWorker with
  | false =>
    rw [calmed_other hw]
    simp [hw]
  | true =>
    rcases calmed_worker now s hw with hnone | hone
    · rw [hnone]
      rfl
    · rw [hone]
      rfl

end

section

variable {number : Nat} {mode : Mode} {o : Options} {es : List (Stamp × Event)}

theorem run_calm (h : machine.Valid (initial number mode o) es)
    (handled : ∀ e ∈ es, e.2.isHandled = true) :
    machine.Valid (initial number mode o) (calmRun (initial number mode o) es) ∧
      machine.after (initial number mode o) (calmRun (initial number mode o) es) =
        (machine.after (initial number mode o) es).calm :=
  Machine.run_translated (fun _ _ => calm_step) h handled

theorem calmRun_calm (s : State) (es : List (Stamp × Event)) :
    ∀ c ∈ calmRun s es, c.2.fails = false :=
  machine.history_forall calmed_calm s es

theorem calmRun_others (s : State) (es : List (Stamp × Event)) :
    (calmRun s es).filter (fun c => !c.2.ofWorker) = es.filter fun e => !e.2.ofWorker := by
  induction es generalizing s with
  | nil => rfl
  | cons e es ih =>
    rw [calmRun, Machine.history, List.filter_append, ← calmRun, ih, calmed_others]
    cases hw : e.2.ofWorker <;> simp [hw]

theorem results_handled {s : State} (handled : ∀ e ∈ es, e.2.isHandled = true) :
    ∀ r ∈ results s es, ∀ f, r.2 = some f → f.isAbrupt = false := by
  intro r hr f hf
  obtain ⟨k, hk⟩ := List.getElem?_of_mem hr
  obtain ⟨before, e, rest, j, rfl, -, hj⟩ := machine.history_getElem hk
  have hmem := List.mem_of_getElem? hj
  have he := handled e (by simp)
  obtain ⟨now, e⟩ := e
  unfold ended at hmem
  split at hmem
  case h_3 => cases hmem
  all_goals
    obtain rfl := List.mem_singleton.mp hmem
    simp_all [Event.isHandled]

/-- Each line that failed makes one warning. -/
theorem run_warnings (h : machine.Valid (initial number mode o) es)
    (handled : ∀ e ∈ es, e.2.isHandled = true) :
    (machine.after (initial number mode o) es).warnings =
      (results (initial number mode o) es).countP fun r => r.2.isSome := by
  have hfaults := results_handled (s := initial number mode o) handled
  rw [State.warnings, run_diagnostics h, List.countP_cons_of_neg (by simp [World.reportLevel])]
  revert hfaults
  induction results (initial number mode o) es with
  | nil => exact fun _ => rfl
  | cons r rs ih =>
    intro hfaults
    have hrest := ih fun r' hr' => hfaults r' (List.mem_cons_of_mem _ hr')
    obtain ⟨l, _ | f⟩ := r
    · simpa [failure?, List.filterMap_cons] using hrest
    · have hf : f.isAbrupt = false := hfaults (l, some f) List.mem_cons_self f rfl
      simpa [failure?, World.reportLevel, hf] using hrest

structure Absorbed (number : Nat) (mode : Mode) (o : Options) (es : List (Stamp × Event))
    (s : State) : Prop where
  /-- Each line that was handed off is attempted once, in the order of the slot, but for those that
  are still in the slot or with the worker. -/
  once : s.handedOff.map Prod.snd =
    s.attempts ++ (s.held ++ s.channel.slot.toList).filterMap Parcel.line?
  /-- The worker finishes with each attempt, once, before it begins with the next one. -/
  ended : (results (initial number mode o) es).map Prod.fst ++ s.atHand = s.attempts
  warned : s.warnings = (results (initial number mode o) es).countP fun r => r.2.isSome
  /-- A fault of an emitting call is one of its own plan. -/
  raised : ∀ t i f looks, latest t es = some i → i.call.Emits →
    s.callers t = .done (.raised f) looks →
    ∃ o now, (Plan.make o now i).outcome = .error f
  /-- If nothing new begins, there are only so many steps left. -/
  settles : ∃ bound, ∀ rest, machine.Valid s rest → (∀ e ∈ rest, e.2.begins = false) →
    goings rest ≤ bound
  /-- The worker ends only at a line that the destination cannot be given. -/
  lost : Ended s.worker → ∃ l, s.worker = .ended (some l) ∧ mode.takes l = false
  /-- When nobody can go on any more, each call that waits has answered that it has, unless the
  worker has ended. -/
  synced : ∀ t i rest, latest t es = some i → i.call = .sync → ¬IsIdle (s.callers t) →
    machine.Valid s rest → (∀ e ∈ rest, e.2.begins = false) → (∀ e ∈ rest, e.2 ≠ .collect t) →
    Still (machine.after s rest) → ¬Ended (machine.after s rest).worker →
    ∃ looks, (machine.after s rest).callers t = .done (.returned (.bool true)) looks
  /-- It never answers anything else. -/
  answered : ∀ t i outcome looks, latest t es = some i → i.call = .sync →
    s.callers t = .done outcome looks → outcome = .returned (.bool true)
  /-- The same is done in a run without the failures, and it ends in the same state but for them. -/
  calm : let run := calmRun (initial number mode o) es
    machine.Valid (initial number mode o) run ∧ (∀ e ∈ run, e.2.fails = false) ∧
      run.filter (fun e => !e.2.ofWorker) = es.filter (fun e => !e.2.ofWorker) ∧
      machine.after (initial number mode o) run = s.calm
  /-- That run writes the same lines, and each call is there where it is here. -/
  same : let calm := machine.after (initial number mode o) (calmRun (initial number mode o) es)
    calm.attempts = s.attempts ∧ calm.callers = s.callers

theorem failures_absorbed (h : machine.Valid (initial number mode o) es)
    (handled : ∀ e ∈ es, e.2.isHandled = true) :
    Absorbed number mode o es (machine.after (initial number mode o) es) := by
  have hr := reachable_of_valid h
  obtain ⟨_, hd⟩ := reachable_delivered hr
  obtain ⟨hvalid, hafter⟩ := run_calm h handled
  refine ⟨handedOff_accounted (reachable_sound hr) hd, run_attempts h,
    run_warnings h handled, ?_, run_settles hr, run_ended_lost h handled, ?_, ?_,
      ⟨hvalid, calmRun_calm _ es, calmRun_others _ es, hafter⟩, ?_⟩
  · intro t i f looks hlatest hemits hdone
    exact (run_answers h hlatest hdone).emits hemits
  · intro t i rest hlatest hsync busy hrest quiet uncollected still alive
    have hrun := (machine.valid_append _ _ _).mpr ⟨h, hrest⟩
    rw [← Machine.after_append] at still alive ⊢
    exact run_sync_answered hrun hlatest hsync busy quiet uncollected still alive
  · intro t i outcome looks hlatest hsync hdone
    exact (run_answers h hlatest hdone).sync hsync
  · rw [hafter]
    exact ⟨rfl, rfl⟩

end

/-- The write of the first line fails, and the flush of the second one; then the caller waits. -/
def rough : List (Stamp × Event) :=
  let logs (text : String) : List Event :=
    [.start (.caller 0) ⟨.leveled .info (.text text) [], [], [], .usual⟩]
  let step (k : Nat) : List Event := List.replicate k (.caller (.caller 0))
  let work (k : Nat) : List Event := List.replicate k (.worker none)
  let fails : List Event := [.worker (some (.scripted .system))]
  let events : List Event :=
    work 3 ++ logs "a" ++ step 7 ++ work 2 ++ step 3 ++ work 1 ++ fails ++ work 3 ++ step 1 ++
      [.collect (.caller 0)] ++ logs "b" ++ step 7 ++ work 2 ++ step 3 ++ work 2 ++ fails ++
      work 3 ++ step 1 ++ [.collect (.caller 0), .start (.caller 0) ⟨.sync, [], [], .usual⟩] ++
      step 6 ++ work 2 ++ step 3 ++ work 1 ++ step 2
  events.map (⟨2024, 5, 6, 7, 8, 9, 1234⟩, ·)

theorem rough_absorbed :
    let s := machine.after (initial 1 .bytes infoOnly) rough
    s.attempts = [Text.points "<2>:a\n".toList, Text.points "<2>:b\n".toList] ∧
      s.diagnostics.length = 3 ∧
      (latest (.caller 0) rough).map Invocation.call = some .sync ∧
      IsDone (s.callers (.caller 0)) ∧ Absorbed 1 .bytes infoOnly rough s :=
  ⟨by decide +kernel, by decide +kernel, by rfl, by decide +kernel,
    failures_absorbed (by decide +kernel) (by decide +kernel)⟩

/-- A line can be handed off and neither written nor diagnosed, and a call that waits after it is
never answered, whatever happens next. -/
theorem muted_unnoticed :
    let s := machine.after (initial 1 .bytes unfiltered) muted
    machine.Valid (initial 1 .bytes unfiltered) muted ∧
      (latest (.caller 0) muted).map Invocation.call = some .sync ∧
      ∀ rest, machine.Valid s rest →
        (machine.after s rest).attempts = [] ∧ (machine.after s rest).warnings = 0 ∧
          ¬IsDone ((machine.after s rest).callers (.caller 0)) := by
  refine ⟨muted_valid, by rfl, fun rest h => ?_⟩
  have hr := reachable_of_valid muted_valid
  have hsame := run_deserted h muted_ended
  refine ⟨?_, ?_, run_never_done hr h muted_ended muted_barred⟩
  · rw [hsame.attempts]
    decide +kernel
  · rw [State.warnings, hsame.diagnostics]
    decide +kernel

end Logger

end LeveledLog
