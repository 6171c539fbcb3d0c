import LeveledLog.Proofs.Logger.Delivery

/-!
What becomes of the lines at the destination. The worker finishes with one line before it begins
with the next: the line was written and flushed, or it failed once, and each failure makes one
diagnostic. Which of the two a line meets comes with the run.
-/

namespace LeveledLog.Logger

def State.atHand (s : State) : List (List CodePoint) :=
  match s.worker with
  | .writing l => [l]
  | .flushing l => [l]
  | _ => []

/-- The line that the worker finishes with at an event, and the fault if it failed. -/
def ended (s : State) (e : Stamp × Event) : List (List CodePoint × Option Fault) :=
  match e.2, s.worker with
  | .worker (some f), .writing l => [(l, some f)]
  | .worker outcome, .flushing l => [(l, outcome)]
  | _, _ => []

def results (s : State) (es : List (Stamp × Event)) : List (List CodePoint × Option Fault) :=
  machine.history ended s es

/-- What is reported of a line, which is nothing if the worker has ended with it. -/
def failure? (r : List CodePoint × Option Fault) : Option Diagnostic :=
  (r.2.filter fun f => !f.isAbrupt).map (.failed r.1)

section

variable {now : Stamp} {s u : State} {e : Event}

theorem move_attempts (hm : Move now s e u) {before : List (List CodePoint)}
    (h : before ++ s.atHand = s.attempts) :
    before ++ (ended s (now, e)).map Prod.fst ++ u.atHand = u.attempts := by
  cases hm with
  | reported w | take w | release w | lose w | flushed w | flushFailed w | flushEnded w =>
    simpa [State.atHand, ended, receive, report, giveUp, w] using h
  | write w =>
    simp only [State.atHand, w, List.append_nil] at h
    simp [State.atHand, ended, w, h]
  | written w | writeFailed w | writeEnded w =>
    simpa [State.atHand, ended, report, giveUp, w] using h
  | _ => simpa [State.atHand, ended] using h

theorem move_diagnostics (hm : Move now s e u) :
    u.diagnostics = s.diagnostics ++ (ended s (now, e)).filterMap failure? := by
  cases hm with
  | reported w | take w | release w | write w | lose w | written w | flushed w =>
    simp [ended, w, receive, giveUp, failure?]
  | writeFailed w handled | flushFailed w handled => simp [ended, w, report, failure?, handled]
  | writeEnded w abrupt | flushEnded w abrupt => simp [ended, w, giveUp, failure?, abrupt]
  | _ => exact (List.append_nil _).symm

end

section

variable {number : Nat} {mode : Mode} {o : Options} {es : List (Stamp × Event)}

/-- The lines that writes were attempted with are those that the worker has finished with, and
the one at hand. -/
theorem run_attempts (h : machine.Valid (initial number mode o) es) :
    (results (initial number mode o) es).map Prod.fst ++
      (machine.after (initial number mode o) es).atHand =
        (machine.after (initial number mode o) es).attempts := by
  refine Machine.history_induction
    (I := fun s past => past.map Prod.fst ++ s.atHand = s.attempts) rfl ?_ h
  intro es e _ he ih
  rw [List.map_append]
  exact move_attempts (machine_move he) ih

theorem run_diagnostics (h : machine.Valid (initial number mode o) es) :
    (machine.after (initial number mode o) es).diagnostics =
      .started :: (results (initial number mode o) es).filterMap failure? := by
  refine Machine.history_induction
    (I := fun s past => s.diagnostics = .started :: past.filterMap failure?) rfl ?_ h
  intro es e _ he ih
  rw [move_diagnostics (machine_move he), ih, List.filterMap_append]
  rfl

end

theorem atHand_busy {s : State} (h : s.atHand ≠ []) : Busy s.worker := by
  unfold State.atHand at h
  cases hw : s.worker <;> simp_all [Busy]

theorem move_taken_atHand {now : Stamp} {s u : State} {e : Event} (hm : Move now s e u)
    (hs : Sound s) :
    (u.atHand = s.atHand ∧ u.channel.taken = s.channel.taken) ∨ u.atHand = [] ∨
      ∃ l, u.atHand = [l] ∧ s.held = [.line l] ∧ u.channel.taken = s.channel.taken := by
  cases hm with
  | send sending ready | sentLine sending ready | sentBarrier sending ready =>
    exact .inl ⟨rfl, Handoff.move_sends_taken (Handoff.move_of_enabled ready)
      (hs.coupled.sends sending)⟩
  | reported | release | lose | flushed | writeFailed | writeEnded | flushFailed | flushEnded =>
    exact .inr (.inl rfl)
  | take receiving => exact .inr (.inl (by simp [State.atHand, receiving]))
  | @write l outcome receiving received =>
    exact .inr (.inr ⟨l, rfl, held_of_received receiving received, rfl⟩)
  | written w => exact .inl ⟨by simp [State.atHand, w], rfl⟩
  | _ => exact .inl ⟨rfl, rfl⟩

theorem reachable_at_hand {s : State} (h : Reachable s) :
    ∃ settled, Delivered s (settled ++ s.atHand.map .line) := by
  refine reachable_keeps (I := fun s => ∃ settled, Delivered s (settled ++ s.atHand.map .line))
    ?_ ?_ h
  · intro number mode o
    exact ⟨[], initial_delivered number mode o⟩
  · rintro now s e u hm hs ⟨settled, hd⟩
    obtain ⟨rest, hu⟩ := move_keeps_delivered hm hs hd
    by_cases hempty : u.atHand = []
    · rw [hempty]
      exact ⟨settled ++ s.atHand.map .line ++ rest, by simpa using hu⟩
    · have htaken := hu.taken
      rw [held_of_busy (atHand_busy hempty), List.append_nil] at htaken
      rcases move_taken_atHand hm hs with ⟨hhand, hsame⟩ | hnil | ⟨l, hhand, hheld, hsame⟩
      · have hold := hd.taken
        rw [held_of_busy (atHand_busy (hhand ▸ hempty)), List.append_nil] at hold
        rw [htaken, hold] at hsame
        rw [hsame] at hu
        exact ⟨settled, hhand ▸ hu⟩
      · exact absurd hnil hempty
      · have hbefore : s.atHand = [] := by
          by_contra hne
          rw [held_of_busy (atHand_busy hne)] at hheld
          cases hheld
        have hold := hd.taken
        rw [htaken, hold, hheld, hbefore, List.map_nil, List.append_nil] at hsame
        rw [hbefore, List.map_nil, List.append_nil, hsame] at hu
        exact ⟨settled, hhand ▸ hu⟩

end LeveledLog.Logger
