import LeveledLog.Logger
import LeveledLog.Proofs.Flags.Meaning
import LeveledLog.Proofs.World.Coercion

/-!
A logger and the same logger without the bits of its header options that have no meaning. Whatever
happens happens alike to both, until header options are assigned.
-/

namespace LeveledLog

namespace Render

section

variable {α β : Type}

theorem map_run (g : α → β) (r : Render α) (k : Nat) :
    (g <$> r).run.run k = (((r.run.run k).1).map g, (r.run.run k).2) := by
  rw [map_eq_pure_bind, bind_run]
  rcases r.run.run k with ⟨_ | a, n⟩ <;> rfl

theorem Fails.bind_eq {r : Render α} (h : Fails r) (f g : α → Render β) : r >>= f = r >>= g := by
  refine ExceptT.ext (StateT.ext fun k => ?_)
  rw [bind_run, bind_run]
  rcases hr : r.run.run k with ⟨_ | a, n⟩
  · rfl
  · exact (h k a (congrArg Prod.fst hr)).elim

end

end Render

def Options.meaningful (o : Options) : Options := { o with flags := o.flags.meaningful }

def Call.AssignsFlags (made : List Nat) : Call → Prop
  | .setFlags v => (Flags.ofValue made v).outcome.isOk
  | _ => False

instance (made : List Nat) (c : Call) : Decidable (c.AssignsFlags made) :=
  match c with
  | .setFlags _ => instDecidableEqBool _ true
  | .leveled .. | .printf .. | .print _ | .output .. | .backtrace _ | .sync | .panic .. | .fatal ..
  | .setPriority _ | .setPrefix _ => instDecidableFalse

namespace Plan

section

variable (o : Options) (now : Stamp)

theorem lineOf_meaningful (frames : Stack) (depth : Nat) (p : Priority) (m : List CodePoint) :
    lineOf o.meaningful now frames depth p m = lineOf o now frames depth p m := by
  simp only [lineOf, Options.meaningful, Line.wantsSite_meaningful, Line.format_meaningful]

theorem lastWords_meaningful (stack : Stack) (m : List CodePoint) (depth : Nat) :
    lastWords o.meaningful now stack m depth = lastWords o now stack m depth := by
  rw [lastWords, lastWords, lineOf_meaningful]

theorem output_meaningful (stack : Stack) (depth priority m : Value) :
    output o.meaningful now stack depth priority m = output o now stack depth priority m := by
  simp only [output, siteOf, Options.meaningful, Line.wantsSite_meaningful,
    Line.ofValues_meaningful]

/-- A plan is the same for options without meaningless bits, and leaves them without. -/
theorem make_meaningful {i : Invocation} (h : ¬i.call.AssignsFlags i.host.made) :
    make o.meaningful now i =
      (fun made : Options × Plan => (made.1.meaningful, made.2)) <$> make o now i := by
  unfold make
  split
  · simp only [lineOf_meaningful, map_bind, map_pure]
  · simp only [lineOf_meaningful, map_bind, map_pure]
  · simp only [lineOf_meaningful, map_bind, map_pure]
  · simp only [output_meaningful, map_bind, map_pure]
  · simp only [map_bind, map_pure]
  · rfl
  · simp only [lastWords_meaningful, map_bind, map_pure]
  · simp only [lastWords_meaningful, map_bind, map_pure]
  · rw [map_bind]
    rfl
  · rename_i v hcall
    rw [hcall, Call.AssignsFlags] at h
    rcases Flags.ofValue_cases i.host.made v with ⟨f, hf, -⟩ | hfails
    · rw [hf] at h
      exact absurd rfl h
    · rw [map_bind]
      exact hfails.bind_eq _ _
  · rfl

end

end Plan

namespace Logger

def State.meaningful (s : State) : State := { s with options := s.options.meaningful }

/-- The call of which an event makes the plan, from the options of the moment. -/
def consults? (s : State) : Event → Option Invocation
  | .caller t => match s.callers t with | .composing i => some i | _ => none
  | .ownCall i => some i
  | _ => none

def AssignsFlags (s : State) (e : Event) : Prop :=
  ∃ i ∈ consults? s e, i.call.AssignsFlags i.host.made

instance (s : State) (e : Event) : Decidable (AssignsFlags s e) :=
  inferInstanceAs (Decidable (∃ i ∈ consults? s e, i.call.AssignsFlags i.host.made))

section

variable (s : State) (now : Stamp) {e : Event} {i : Invocation}

theorem compose_meaningful (t : Thread) (h : ¬i.call.AssignsFlags i.host.made) :
    compose s.meaningful now t i = (compose s now t i).meaningful := by
  have hoptions : s.meaningful.options = s.options.meaningful := rfl
  rw [compose, compose, hoptions, Plan.make_meaningful _ _ h, Render.map_run]
  rcases (Plan.make s.options now i).run.run 0 with ⟨_ | ⟨o, p⟩, looks⟩ <;> rfl

theorem ownCall_meaningful (h : ¬i.call.AssignsFlags i.host.made) :
    ownCall s.meaningful now i =
      ((ownCall s now i).1.meaningful, (ownCall s now i).2.1, (ownCall s now i).2.2) := by
  have hoptions : s.meaningful.options = s.options.meaningful := rfl
  unfold ownCall
  rw [hoptions, Plan.make_meaningful _ _ h, Render.map_run]
  extract_lets dropped' dropped
  have hdropped : dropped' = dropped := rfl
  rw [hdropped]
  split
  · rfl
  · rcases (Plan.make s.options now i).run.run 0 with ⟨_ | ⟨o, p⟩, looks⟩ <;> rfl

theorem callerStep_meaningful (t : Thread) {p : Progress}
    (h : ∀ i, p = .composing i → ¬i.call.AssignsFlags i.host.made) :
    callerStep s.meaningful now t p = (callerStep s now t p).meaningful := by
  cases p with
  | idle | done | awaiting | flushing => rfl
  | deciding i l =>
    have hthreshold : s.meaningful.options.loggable = s.options.loggable := rfl
    rw [callerStep, callerStep, hthreshold, apply_ite State.meaningful]
    rfl
  | composing i => exact compose_meaningful s now t (h i rfl)
  | handing tasks ending looks =>
    cases tasks with
    | nil => rfl
    | cons task rest => cases task <;> rfl
  | sending wait tasks ending looks =>
    let u : State := { s with channel := Handoff.next s.channel (.step t) }
    have hsent (q : Progress) :
        (if (u.channel.phase t).AtRest then u.meaningful.set t q else u.meaningful) =
          State.meaningful (if (u.channel.phase t).AtRest then u.set t q else u) := by
      rw [apply_ite State.meaningful]
      rfl
    cases wait with
    | none => exact hsent (.handing tasks ending looks)
    | some b => exact hsent (.awaiting b tasks ending looks)

theorem fail_meaningful (l : List CodePoint) (f : Fault) :
    fail s.meaningful l f = (fail s l f).meaningful := by
  rw [fail, fail, apply_ite State.meaningful]
  rfl

theorem workerStep_meaningful (outcome : Option Fault) (p : WorkerPhase) :
    workerStep s.meaningful outcome p = (workerStep s outcome p).meaningful := by
  cases p with
  | reporting d => rfl
  | receiving =>
    have hphase : s.meaningful.channel.phase s.meaningful.own = s.channel.phase s.own := rfl
    have hmode : s.meaningful.mode = s.mode := rfl
    rw [workerStep, workerStep, hphase, hmode]
    split
    · rfl
    · rw [apply_ite State.meaningful]
      rfl
    · rfl
  | writing l =>
    cases outcome with
    | none => rfl
    | some f => exact fail_meaningful { s with finished := s.finished + 1 } l f
  | flushing l =>
    cases outcome with
    | none => rfl
    | some f => exact fail_meaningful s l f
  | ended lost => rfl

theorem enabled_meaningful : Enabled s.meaningful e ↔ Enabled s e := by
  cases e with
  | caller t =>
    have hcaller : s.meaningful.callers t = s.callers t := rfl
    rw [Enabled, Enabled, hcaller]
    cases s.callers t <;> exact Iff.rfl
  | start | collect | worker | ownCall => exact Iff.rfl

/-- Bits without a meaning make no difference to what happens. -/
theorem next_meaningful (h : ¬AssignsFlags s e) :
    next now s.meaningful e = (next now s e).meaningful := by
  cases e with
  | start | collect => rfl
  | caller t =>
    refine callerStep_meaningful s now t fun i hi hassigns => h ⟨i, ?_, hassigns⟩
    have hcaller : s.callers t = .composing i := hi
    rw [consults?, hcaller]
    rfl
  | worker outcome => exact workerStep_meaningful s outcome s.worker
  | ownCall i =>
    have hcall : ¬i.call.AssignsFlags i.host.made := fun hassigns => h ⟨i, rfl, hassigns⟩
    simp only [next, ownCall_meaningful s now hcall]
    rfl

end

end Logger

end LeveledLog
