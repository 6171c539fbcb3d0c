import LeveledLog.Proofs.Logger.LastWords
import LeveledLog.Proofs.Logger.Snapshots

/-!
What a call has handed off when it has ended. Whatever kind of call it is, it was dropped for the
threshold, or all its lines were composed at one of its steps, under the flags of that moment.
-/

namespace LeveledLog

namespace Logger

inductive Uttered (states : List (Stamp × Event) → State) (t : Thread) (i : Invocation)
    (during : List (Stamp × Event)) : List (List CodePoint) → Prop where
  | dropped {l format args d now rest} (call : i.call = .leveled l format args)
      (decided : during = d ++ (now, .caller t) :: rest)
      (deciding : (states d).callers t = .deciding i l)
      (low : ¬(states d).options.threshold ≤ l.priority) : Uttered states t i during []
  | composed {d now rest} (moment : during = d ++ (now, .caller t) :: rest)
      (composing : (states d).callers t = .composing i) :
      Uttered states t i during (Direct.emitted (states d).options.flags now i)

section

variable {states : List (Stamp × Event) → State} {t : Thread} {i : Invocation}
  {during : List (Stamp × Event)} {base issued new : List (List CodePoint)} {p : Progress}

theorem Fate.uttered (h : Fate states t i during base issued) :
    ∃ new, Uttered states t i during new ∧ issued = base ++ new := by
  cases h with
  | dropped call decided deciding low nothing =>
    exact ⟨[], .dropped call decided deciding low, by rw [nothing, List.append_nil]⟩
  | composed call decided deciding high composing line =>
    rw [← emitted_leveled call] at line
    exact ⟨_, .composed decided composing, line⟩

theorem Spoken.uttered (h : Spoken states t i during base issued p) (finished : Finished p) :
    ∃ new, Uttered states t i during new ∧ issued = base ++ new := by
  have hspoken : ∃ d now rest, during = d ++ (now, .caller t) :: rest ∧
      (states d).callers t = .composing i ∧
        issued = base ++ Direct.emitted (states d).options.flags now i := by
    cases p with
    | idle | done => exact h
    | _ => rcases finished with hidle | hdone <;> contradiction
  obtain ⟨d, now, rest, moment, composing, lines⟩ := hspoken
  exact ⟨_, .composed moment composing, lines⟩

theorem emitted_panic {f : Flags} {now : Stamp} {format : Value} {args : List Value}
    {m : List CodePoint} (panic : i.call = .panic format args)
    (rendered : (message i.host.room format args).outcome = .ok m) :
    Direct.emitted f now i = Direct.lineOf f now i.stack .emergency true m ++
      [Direct.blockOf i.stack Backtrace.panicDepth] := by
  simp only [Direct.emitted, Direct.emission, panic, Render.outcome_map, rendered]
  rfl

theorem finished_pending_none (finished : Finished p) : p.pending = [] := by
  cases p with
  | deciding | composing => rcases finished with hidle | hdone <;> contradiction
  | _ => rfl

end

section

variable {number : Nat} {mode : Mode} {o : Options} {before during : List (Stamp × Event)}
  {n : Stamp} {t : Thread} {i : Invocation}

theorem run_emission
    (h : machine.Valid (initial number mode o) (before ++ (n, .start t i) :: during))
    (quiet : started t during = [])
    (finished : Finished ((machine.after (initial number mode o)
      (before ++ (n, .start t i) :: during)).callers t)) :
    let states d := machine.after (initial number mode o) (before ++ (n, .start t i) :: d)
    ∃ new, Uttered states t i during new ∧ ofThread t (states during).handedOff =
      ofThread t (machine.after (initial number mode o) before).handedOff ++ new := by
  intro states
  obtain ⟨hbefore, hstart⟩ := (machine.valid_append _ _ _).mp h
  have hlast := finished_issued (reachable_sound (reachable_of_valid h)).coupled finished
  have hfirst := finished_issued (reachable_sound (reachable_of_valid hbefore)).coupled
    (.inl hstart.1.2)
  have huttered : ∃ new, Uttered states t i during new ∧ (states during).issued t =
      (machine.after (initial number mode o) before).issued t ++ new := by
    rcases begin_cases i with ⟨hbegin, -⟩ | ⟨l, format, args, -, call⟩
    · exact Spoken.uttered (run_uttered h hbegin quiet) finished
    · have hfares := run_fares h ⟨l, format, args, call⟩ quiet
      exact Fate.uttered ((fares_of_pending (finished_pending_none finished)).mp hfares)
  rwa [hlast, hfirst] at huttered

/-- A call that is not decided about has all its lines from one of its steps. -/
theorem run_uttered_lines
    (h : machine.Valid (initial number mode o) (before ++ (n, .start t i) :: during))
    (kept : ∀ l format args, i.call ≠ .leveled l format args) (quiet : started t during = [])
    (finished : Finished ((machine.after (initial number mode o)
      (before ++ (n, .start t i) :: during)).callers t)) :
    let states d := machine.after (initial number mode o) (before ++ (n, .start t i) :: d)
    ∃ d now rest, during = d ++ (now, .caller t) :: rest ∧ (states d).callers t = .composing i ∧
      ofThread t (states during).handedOff =
        ofThread t (machine.after (initial number mode o) before).handedOff ++
          Direct.emitted (states d).options.flags now i := by
  intro states
  obtain ⟨new, huttered, hnew⟩ := run_emission h quiet finished
  cases huttered with
  | dropped call => exact absurd call (kept _ _ _)
  | composed moment composing => exact ⟨_, _, _, moment, composing, hnew⟩

end

end Logger

end LeveledLog
