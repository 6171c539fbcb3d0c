import LeveledLog.Proofs.Logger.Refinement
import LeveledLog.Proofs.Logger.Unadorned
import LeveledLog.Proofs.Logger.WriteBarrier
import LeveledLog.Proofs.World.Lockstep

/-!
A logger that one thread calls. When the thread has waited, the worker is done with its writes, and
they are those that the direct logger makes of the same calls. Each of them is a whole line.
-/

namespace LeveledLog

section

variable {f : Flags} {now : Stamp} {i : Invocation} {l : List CodePoint}

theorem Line.assemble_ended (tag : List Char) (f : Flags) (message : List CodePoint)
    (site : Option CallSite) (now : Stamp) :
    (assemble tag f message site now).getLast? = some (.char '\n') := by
  unfold assemble
  rw [List.getLast?_append, complete_ended, Option.some_or]

theorem Line.ofValues_assembled {priority v : Value} {site : Option CallSite}
    (h : (ofValues priority f v site now).outcome = .ok l) (holds : v.truth = true) :
    ∃ tag s, l = assemble tag f (Text.points s) site now := by
  unfold ofValues at h
  rw [holds] at h
  cases htext : v.text? with
  | none =>
    rw [htext] at h
    have hvain : Render.outcome (do
        let _ ← tagOf priority f
        throw Fault.wrongType : Render (List CodePoint)) = .ok l := h
    rw [Render.outcome, Render.bind_run] at hvain
    split at hvain <;> cases hvain
  | some s =>
    rw [htext] at h
    obtain ⟨tag, -, rfl⟩ := Render.of_outcome_ok h
    exact ⟨tag, s.toList, rfl⟩

theorem Direct.emitted_ended (h : l ∈ emitted f now i) : l.getLast? = some (.char '\n') := by
  cases emitted_worded h with
  | @spoken p tells r m speaks rendered nonempty =>
    rw [Line.format, if_neg (by simpa using nonempty)]
    exact Line.assemble_ended _ _ _ _ _
  | @output depth priority v site l speaks located rendered =>
    obtain ⟨tag, s, rfl⟩ := Line.ofValues_assembled rendered (output_holds speaks h)
    exact Line.assemble_ended _ _ _ _ _
  | trace traces => exact blockOf_ended _ _

end

namespace Direct

theorem writes_emitted {o : Options} {now : Stamp} {i : Invocation} {l : List CodePoint}
    (h : l ∈ writes o now i) : l ∈ emitted o.flags now i := by
  unfold writes at h
  split at h
  · split at h
    · exact h
    · cases h
  · exact h

theorem log_ended {o : Options} {calls : List (Stamp × Invocation)} {l : List CodePoint}
    (h : l ∈ log o calls) : l.getLast? = some (.char '\n') := by
  induction calls generalizing o with
  | nil => cases h
  | cons c calls ih =>
    rcases List.mem_append.mp h with hfirst | hrest
    · exact emitted_ended (writes_emitted hfirst)
    · exact ih hrest

end Direct

namespace Logger

section

variable {t : Thread} {number : Nat} {mode : Mode} {o : Options} {es : List (Stamp × Event)}
  {looks : Nat}

theorem solo_handedOff (h : machine.Valid (initial number mode o) es)
    (only : ∀ e ∈ es, OnlyThread t e.2)
    (finished : Finished ((machine.after (initial number mode o) es).callers t)) :
    (machine.after (initial number mode o) es).handedOff.map Prod.snd =
      Direct.log o (performed t (initial number mode o) es) := by
  have hf := run_follows h only
  have hs := reachable_sound (reachable_of_valid h)
  rw [handedOff_lines, hf.deposits, ← ofThread_handedOff, ← finished_issued hs.coupled finished,
    run_issued h t, hf.lines]

theorem carriedOut_clock {s : State} {e : Stamp × Event} {c : Stamp × Invocation}
    (h : c ∈ carriedOut t s e) : c.1 = e.1 := by
  unfold carriedOut atStep at h
  split at h
  · split at h
    · dsimp only at h
      split at h
      · split at h
        · cases h
        · rw [List.mem_singleton.mp h]
      · rw [List.mem_singleton.mp h]
      · cases h
    · cases h
  · cases h

/-- A call is carried out at what the clock shows at one of the events. -/
theorem performed_clock {s : State} {clock : Stamp} (h : ∀ e ∈ es, e.1 = clock) :
    ∀ c ∈ performed t s es, c.1 = clock := by
  induction es generalizing s with
  | nil => simp [performed, Machine.history]
  | cons e es ih =>
    intro c hc
    rcases List.mem_append.mp hc with hnow | hlater
    · rw [carriedOut_clock hnow, h e List.mem_cons_self]
    · exact ih (fun e he => h e (List.mem_cons_of_mem _ he)) c hlater

/-- The barrier that was waited for is the latest parcel, so the worker has finished with all. -/
theorem solo_results (h : machine.Valid (initial number mode o) es)
    (only : ∀ e ∈ es, OnlyThread t e.2)
    (waited : (machine.after (initial number mode o) es).callers t =
      .done (.returned (.bool true)) looks) :
    (results (initial number mode o) es).map Prod.fst =
      (machine.after (initial number mode o) es).handedOff.map Prod.snd := by
  have hs := reachable_sound (reachable_of_valid h)
  have hf := run_follows h only
  have hsynced := (run_synced (t := t) (initial_reachable number mode o) rfl h).2
  have hfin : Finished ((machine.after (initial number mode o) es).callers t) := by
    rw [waited]
    exact .inr trivial
  rw [waited] at hsynced
  obtain ⟨b, before, -, hoffered, hfresh, hb⟩ := hsynced rfl
  obtain ⟨settled, hprefix, hlines, hreleased⟩ := run_settled h
  have hdeposits : (machine.after (initial number mode o) es).channel.deposited.map Prod.snd =
      before ++ [.barrier b] := by
    rw [hf.deposits, ← hoffered, Handoff.State.offered, finished_pending hs.coupled hfin,
      List.append_nil]
  have hall :
    settled = (machine.after (initial number mode o) es).channel.deposited.map Prod.snd := by
    rw [hdeposits] at hprefix ⊢
    rcases List.prefix_concat_iff.mp hprefix with heq | hbefore
    · exact heq
    · exact absurd (hbefore.subset (hreleased b hb)) hfresh
  rw [← hlines, hall, handedOff_lines]

theorem inWrite_of_atHand {s : State} (h : s.atHand = []) : s.inWrite = [] := by
  unfold State.atHand at h
  unfold State.inWrite
  cases hw : s.worker with
  | writing l =>
    rw [hw] at h
    cases h
  | _ => rfl

/-- When the one thread that calls a logger has waited, all writes have ended, of all its calls. -/
theorem solo_written (h : machine.Valid (initial number mode o) es)
    (only : ∀ e ∈ es, OnlyThread t e.2)
    (waited : (machine.after (initial number mode o) es).callers t =
      .done (.returned (.bool true)) looks) :
    machine.history written? (initial number mode o) es =
      Direct.log o (performed t (initial number mode o) es) := by
  have hresults := solo_results h only waited
  have hattempts := run_attempts h
  rw [hresults] at hattempts
  have hhand : (machine.after (initial number mode o) es).atHand = [] := by
    have hprefix := attempts_handedOff h
    rw [← hattempts] at hprefix
    have hlength := hprefix.length_le
    rw [List.length_append] at hlength
    exact List.eq_nil_of_length_eq_zero (by omega)
  have hwritten := run_written h
  rw [inWrite_of_atHand hhand, List.append_nil, ← hattempts, hhand, List.append_nil] at hwritten
  rw [hwritten]
  refine solo_handedOff h only ?_
  rw [waited]
  exact .inr trivial

end

end Logger

end LeveledLog
