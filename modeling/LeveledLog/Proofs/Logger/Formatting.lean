import LeveledLog.Proofs.Logger.Departure
import LeveledLog.Proofs.Template.Fallback

/-!
What becomes of a call whose format and arguments cannot be put together. The only fault that a
format gives a call is the one that its message ends in, so a message that comes to a text never
stops its call.
-/

namespace LeveledLog

def Call.format? : Call → Option (Value × List Value)
  | .leveled _ format args => some (format, args)
  | .printf format args => some (format, args)
  | .panic format args => some (format, args)
  | .fatal format args => some (format, args)
  | _ => none

namespace Logger

inductive MessageOutcome (r : Render (List CodePoint)) (i : Invocation) : Outcome → Prop where
  /-- Its level was below the threshold. -/
  | dropped {l format args} (call : i.call = .leveled l format args) :
      MessageOutcome r i (.returned .none)
  | failed {f} (fails : r.outcome = .error f) : MessageOutcome r i (.raised f)
  /-- With a message, a call ends as it is meant to, but for a stream that cannot be flushed. -/
  | returned {m v} (renders : r.outcome = .ok m) (ends : i.call.EndsIn (.value v)) :
      MessageOutcome r i (.returned v)
  | raised {m f} (renders : r.outcome = .ok m) (ends : i.call.EndsIn (.fault f)) :
      MessageOutcome r i (.raised f)
  | exited {m streams flushed} (renders : r.outcome = .ok m)
      (ends : i.call.EndsIn (.exit streams)) : MessageOutcome r i (.exited exitStatus flushed)
  | unflushed {m streams k} (renders : r.outcome = .ok m)
      (ends : i.call.EndsIn (.exit streams)) : MessageOutcome r i (.raised (.scripted k))

section

variable {i : Invocation} {format : Value} {args : List Value}

/-- A plan for a call with a message is made from the message, and fails only with it. -/
theorem make_message (hf : i.call.format? = some (format, args)) (o : Options) (now : Stamp) :
    ∃ g, (Plan.make o now i).outcome = ((message i.host.room format args).outcome).map g := by
  unfold Plan.make
  cases hc : i.call with
  | leveled | printf | panic | fatal =>
    rw [hc] at hf
    obtain ⟨rfl, rfl⟩ := Prod.mk.inj (Option.some.inj hf)
    exact ⟨_, Render.outcome_map _ _⟩
  | _ =>
    rw [hc] at hf
    cases hf

theorem message_of_made (hf : i.call.format? = some (format, args)) {o : Options} {now : Stamp}
    {made : Options × Plan} {looks : Nat}
    (h : (Plan.make o now i).run.run 0 = (.ok made, looks)) :
    ∃ m, (message i.host.room format args).outcome = .ok m := by
  obtain ⟨g, hg⟩ := make_message hf o now
  rw [Render.outcome, h] at hg
  cases hm : (message i.host.room format args).outcome with
  | error f =>
    rw [hm] at hg
    cases hg
  | ok m => exact ⟨m, rfl⟩

theorem message_of_refused (hf : i.call.format? = some (format, args)) {o : Options} {now : Stamp}
    {f : Fault} {looks : Nat} (h : (Plan.make o now i).run.run 0 = (.error f, looks)) :
    (message i.host.room format args).outcome = .error f := by
  obtain ⟨g, hg⟩ := make_message hf o now
  rw [Render.outcome, h] at hg
  cases hm : (message i.host.room format args).outcome with
  | error f' =>
    rw [hm] at hg
    cases hg
    rfl
  | ok m =>
    rw [hm] at hg
    cases hg

/-- How far a call with a message has come. Once its plan is made it has a message. -/
def Speaks (r : Render (List CodePoint)) (i : Invocation) : Progress → Prop
  | .idle => False
  | .deciding j l => j = i ∧ ∃ format args, i.call = .leveled l format args
  | .composing j => j = i
  | .handing _ ending _ => (∃ m, r.outcome = .ok m) ∧ i.call.EndsIn ending
  | .sending _ _ ending _ => (∃ m, r.outcome = .ok m) ∧ i.call.EndsIn ending
  | .awaiting _ _ ending _ => (∃ m, r.outcome = .ok m) ∧ i.call.EndsIn ending
  | .flushing _ _ _ => (∃ m, r.outcome = .ok m) ∧ ∃ streams, i.call.EndsIn (.exit streams)
  | .done outcome _ => MessageOutcome r i outcome

variable {r : Render (List CodePoint)}

theorem finish_speaks {m : List CodePoint} (renders : r.outcome = .ok m) {ending : Ending}
    (ends : i.call.EndsIn ending) (looks : Nat) : Speaks r i (finish ending looks) := by
  cases ending with
  | value v => exact .returned renders ends
  | fault f => exact .raised renders ends
  | exit streams => exact ⟨⟨m, renders⟩, streams, ends⟩

theorem flushNext_speaks {m : List CodePoint} (renders : r.outcome = .ok m) {streams : List Stream}
    (ends : i.call.EndsIn (.exit streams)) (rest : List Stream) (flushed : List String)
    (looks : Nat) : Speaks r i (flushNext rest flushed looks) := by
  unfold flushNext
  split
  · exact .exited renders ends
  · split
    · exact ⟨⟨m, renders⟩, streams, ends⟩
    · exact ⟨⟨m, renders⟩, streams, ends⟩
    · split
      · exact ⟨⟨m, renders⟩, streams, ends⟩
      · exact .unflushed renders ends

theorem Advance.speaks (hf : i.call.format? = some (format, args)) {now : Stamp} {s : State}
    {t : Thread} {e : Event} {p q : Progress} (ha : Advance now s t e p q)
    (h : Speaks (message i.host.room format args) i p) :
    q = .idle ∨ Speaks (message i.host.room format args) i q := by
  cases ha with
  | start => exact h.elim
  | collect => exact .inl rfl
  | drop low =>
    obtain ⟨_, format', args', hc⟩ := h
    exact .inr (.dropped hc)
  | pass high => exact .inr h.1
  | compose made =>
    obtain rfl := h
    exact .inr ⟨message_of_made hf made, plan_ending made⟩
  | refuse failed =>
    obtain rfl := h
    exact .inr (.failed (message_of_refused hf failed))
  | finish =>
    obtain ⟨⟨m, renders⟩, ends⟩ := h
    exact .inr (finish_speaks renders ends _)
  | flushStream =>
    obtain ⟨⟨m, renders⟩, streams, ends⟩ := h
    exact .inr (flushNext_speaks renders ends _ _ _)
  | handLine | handBarrier | send | sentLine | sentBarrier | cross => exact .inr h

theorem begin_speaks (i : Invocation) (r : Render (List CodePoint)) : Speaks r i (begin i) := by
  rcases begin_cases i with ⟨h, _⟩ | ⟨l, f, a, h, hc⟩
  · rw [h]
    rfl
  · rw [h]
    exact ⟨rfl, f, a, hc⟩

theorem run_message_outcome {number : Nat} {mode : Mode} {o : Options} {es : List (Stamp × Event)}
    (h : machine.Valid (initial number mode o) es) {t : Thread} (hlatest : latest t es = some i)
    (hf : i.call.format? = some (format, args)) {outcome : Outcome} {looks : Nat}
    (ends : (machine.after (initial number mode o) es).callers t = .done outcome looks) :
    MessageOutcome (message i.host.room format args) i outcome := by
  have hspeaks := latest_induction (P := fun j p => p ≠ .idle ∧
    ∀ format args, j.call.format? = some (format, args) →
      Speaks (message j.host.room format args) j p)
    ?base ?busy ?step h t
  case base =>
    intro j
    refine ⟨?_, fun format args _ => begin_speaks j _⟩
    rcases begin_cases j with ⟨hj, _⟩ | ⟨l, f, a, hj, _⟩ <;> rw [hj] <;> rintro ⟨⟩
  case busy => exact fun j hj => hj.1 rfl
  case step =>
    intro j now s t e p q ha hp
    by_cases hq : q = .idle
    · exact .inl hq
    · refine .inr ⟨hq, fun format args hformat => ?_⟩
      exact (ha.speaks hformat (hp.2 format args hformat)).resolve_left hq
  rcases hspeaks with idle | ⟨j, hj, -, hspeaks⟩
  · rw [ends] at idle
    cases idle
  · obtain rfl : i = j := Option.some.inj (hlatest.symm.trans hj)
    rw [ends] at hspeaks
    exact hspeaks format args hf

theorem flushAll_answers (flushed : List String) (streams : List Stream) :
    (∃ names, flushAll flushed streams = .exited exitStatus names) ∨
      ∃ k, flushAll flushed streams = .raised (.scripted k) := by
  induction streams generalizing flushed with
  | nil => exact .inl ⟨flushed, rfl⟩
  | cons st rest ih =>
    unfold flushAll
    split
    · exact ih flushed
    · exact ih _
    · split
      · exact ih _
      · exact .inr ⟨_, rfl⟩

theorem ownCall_message_outcome (hf : i.call.format? = some (format, args)) (s : State)
    (now : Stamp) :
    MessageOutcome (message i.host.room format args) i (ownCall s now i).2.1 := by
  unfold ownCall
  extract_lets dropped
  split
  · rename_i hdropped
    cases hc : i.call with
    | leveled l f a => exact .dropped hc
    | _ => simp [dropped, hc] at hdropped
  · split
    · rename_i f looks failed
      exact .failed (message_of_refused hf failed)
    · rename_i o p looks made
      obtain ⟨m, renders⟩ := message_of_made hf made
      have ends := plan_ending made
      dsimp only
      split
      · rename_i hc
        rw [hc] at hf
        cases hf
      · rename_i v hv _
        exact .returned renders (hv ▸ ends)
      · rename_i f hv _
        exact .raised renders (hv ▸ ends)
      · rename_i streams hv _
        rw [hv] at ends
        rcases flushAll_answers [] streams with ⟨names, h⟩ | ⟨k, h⟩ <;> rw [h]
        · exact .exited renders ends
        · exact .unflushed renders ends

end

/-- What becomes of a format whose arguments are data, and of the calls that have it. -/
structure Interpolated (room : Room) (s : String) (args : List Value) : Prop where
  /-- It is filled in or written before its arguments, unless there is no room for a number or an
  integer that is to be written has too many digits. -/
  comes : Comes room s args (message room (.text s) args)
  /-- It comes to a text if no directive meets a number that it has no room for, and each integer
  can be written. -/
  returns : (∀ v ∈ args, v.Showable) → Template.Suitable room s.toList (operands args) →
    ∃ out, message room (.text s) args = pure out
  /-- A call with a message answers with no other fault of the interpolation. -/
  calls : ∀ {number mode o es t i outcome looks}, machine.Valid (initial number mode o) es →
    latest t es = some i → i.call.format? = some (.text s, args) → i.host.room = room →
    (machine.after (initial number mode o) es).callers t = .done outcome looks →
    MessageOutcome (message room (.text s) args) i outcome
  /-- Nor does one from the worker itself. -/
  ownCalls : ∀ {i}, i.call.format? = some (.text s, args) → i.host.room = room → ∀ state now,
    MessageOutcome (message room (.text s) args) i (ownCall state now i).2.1

end Logger

end LeveledLog
