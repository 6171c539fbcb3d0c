import LeveledLog.Proofs.Handoff.Returns
import LeveledLog.Proofs.Logger.Merge
import LeveledLog.Proofs.Logger.Results

/-!
How far callers can get ahead of the destination. A hand-off returns only when the worker has taken
the line, and the worker takes no line while it is in a write, so callers are at most one line ahead
of the writes that have ended. Nothing bounds how many threads wait inside the hand-off.
-/

namespace LeveledLog.Logger

def handOff (s : State) (e : Stamp × Event) : List (Thread × Parcel) :=
  match e.2 with
  | .caller t => Handoff.returning s.channel (.step t)
  | _ => []

def handOffs (s : State) (es : List (Stamp × Event)) : List (Thread × Parcel) :=
  machine.history handOff s es

def sent (s : State) (es : List (Stamp × Event)) : List (Thread × List CodePoint) :=
  (handOffs s es).filterMap fun d => d.2.line?.map (d.1, ·)

/-- The lines that the logger holds itself: the one at the destination or with the worker, and the
one in the slot. -/
def State.stock (s : State) : List (List CodePoint) :=
  s.atHand ++ (s.held ++ s.channel.slot.toList).filterMap Parcel.line?

def InSend : Progress → Prop
  | .sending _ _ _ _ => True
  | _ => False

section

variable {now : Stamp} {s u : State} {e : Event} {t : Thread}

theorem returning_of_not_sends (h : ¬(s.channel.phase t).Sends) :
    Handoff.returning s.channel (.step t) = [] := by
  unfold Handoff.returning
  dsimp only
  split
  · rename_i hp
    exact absurd (by simp [hp, Handoff.Phase.Sends, Handoff.Phase.AtTurn]) h
  · rfl

theorem sends_iff (h : Coupled s) (t : Thread) :
    (s.channel.phase t).Sends ↔ InSend (s.callers t) := by
  by_cases ht : t = s.own
  · subst t
    rw [h.own]
    exact iff_of_false h.worker.not_sends id
  · have hf := h.callers t ht
    cases hp : s.callers t <;> rw [hp] at hf
    case sending => exact iff_of_true hf trivial
    all_goals
      change s.channel.phase t = .idle at hf
      rw [hf]
      exact iff_of_false id id

theorem move_keeps_returned (hm : Move now s e u) (hs : Sound s) {done : List (Thread × Parcel)}
    (h : Handoff.Returned s.channel done) :
    Handoff.Returned u.channel (done ++ handOff s (now, e)) := by
  have hstep : ∀ {c}, Handoff.Enabled s.channel c →
      Handoff.Returned (Handoff.next s.channel c) (done ++ Handoff.returning s.channel c) :=
    fun he => Handoff.move_keeps_returned (Handoff.move_of_enabled he) hs.channel.exclusive h
  have houtside : ∀ {t}, ¬InSend (s.callers t) → handOff s (now, .caller t) = [] :=
    fun ht => returning_of_not_sends (mt (sends_iff hs.coupled _).mp ht)
  cases hm with
  | send sending ready | sentLine sending ready | sentBarrier sending ready => exact hstep ready
  | handLine handing | handBarrier handing =>
    rw [houtside (by simp [handing, InSend])]
    exact hstep (hs.coupled.hand_enabled handing _)
  | take receiving ready =>
    have hnone := returning_of_not_sends hs.coupled.worker.not_sends
    have hnext := hstep ready
    rwa [hnone] at hnext
  | reported w | flushed w =>
    exact hstep (c := .receive s.own) (hs.coupled.worker_rest (by simp [w]))
  | release receiving received =>
    exact hstep (c := .receive s.own) (by simp only [Handoff.Enabled, received]; trivial)
  | drop w | pass w | compose w | refuse w | finish w | cross w | flushStream w =>
    rw [houtside (by simp [w, InSend]), List.append_nil]
    exact h
  | _ =>
    simp only [handOff, List.append_nil]
    exact h

end

section

variable {number : Nat} {mode : Mode} {o : Options} {es : List (Stamp × Event)}

theorem run_returned (h : machine.Valid (initial number mode o) es) :
    Handoff.Returned (machine.after (initial number mode o) es).channel
      (handOffs (initial number mode o) es) := by
  refine Machine.history_induction (I := fun s past => Handoff.Returned s.channel past)
    Handoff.initial_returned ?_ h
  intro es e hes he ih
  exact move_keeps_returned (machine_move he) (reachable_sound (reachable_of_valid hes)) ih

theorem sent_handedOff (h : machine.Valid (initial number mode o) es) :
    sent (initial number mode o) es <+: (machine.after (initial number mode o) es).handedOff :=
  (run_returned h).deposited.filterMap _

/-- The worker holds one line at most, and none that it has taken while it is in a write. -/
theorem worker_holds_one (s : State) :
    s.writes + s.held.length ≤ 1 ∧ s.atHand.length + s.held.length ≤ 1 := by
  unfold State.writes State.held State.atHand
  cases s.worker with
  | receiving => cases s.channel.phase s.own <;> simp [Handoff.Phase.inHand]
  | ended lost => cases lost <;> simp
  | _ => simp

theorem sent_length_le (h : machine.Valid (initial number mode o) es) :
    (sent (initial number mode o) es).length ≤
      (machine.after (initial number mode o) es).finished + 1 := by
  have hr := reachable_of_valid h
  have hs := reachable_sound hr
  obtain ⟨handled, hd⟩ := reachable_delivered hr
  have htaken := ((run_returned h).taken hs.channel.conserved).filterMap Parcel.line?
  set s := machine.after (initial number mode o) es
  rw [← map_snd_lines, hd.taken, List.filterMap_append, hd.lines] at htaken
  have hlen := htaken.length_le
  have hheld := List.length_filterMap_le Parcel.line? s.held
  have hattempts := attempts_finished hr
  have hone := (worker_holds_one s).1
  rw [List.length_map, List.length_append] at hlen
  change (sent (initial number mode o) es).length ≤ _ at hlen
  omega

theorem stock_length_le (s : State) : s.stock.length ≤ 2 := by
  have hone := (worker_holds_one s).2
  have hslot : s.channel.slot.toList.length ≤ 1 := by cases s.channel.slot <;> simp
  have hlines := List.length_filterMap_le Parcel.line? (s.held ++ s.channel.slot.toList)
  rw [List.length_append] at hlines
  rw [State.stock, List.length_append]
  omega

structure BackPressured (number : Nat) (mode : Mode) (o : Options) (es : List (Stamp × Event))
    (s : State) : Prop where
  /-- At most one more line hand-off has returned than writes have ended. -/
  ahead : (sent (initial number mode o) es).length ≤ s.finished + 1
  /-- A parcel whose hand-off has begun and not returned belongs to a thread inside the
  hand-off. -/
  inside : ∀ t,
    (InSend (s.callers t) →
      ∃ x, s.channel.offered t = ofThread t (handOffs (initial number mode o) es) ++ [x]) ∧
    (¬InSend (s.callers t) → s.channel.offered t = ofThread t (handOffs (initial number mode o) es))
  /-- A thread that cannot go on with its call is inside the hand-off, or waits for a barrier. -/
  blocked : ∀ t, ¬Finished (s.callers t) → ¬Enabled s (.caller t) →
    InSend (s.callers t) ∨
      ∃ b tasks ending looks, s.callers t = .awaiting b tasks ending looks ∧ b ∉ s.released
  /-- The lines that came to the slot are those that the worker has finished with, and at most two
  that the logger holds. -/
  held : s.handedOff.map Prod.snd =
    (results (initial number mode o) es).map Prod.fst ++ s.stock ∧ s.stock.length ≤ 2

theorem callers_one_line_ahead (h : machine.Valid (initial number mode o) es) :
    BackPressured number mode o es (machine.after (initial number mode o) es) := by
  have hr := reachable_of_valid h
  have hs := reachable_sound hr
  refine ⟨sent_length_le h, ?_, ?_, ?_, stock_length_le _⟩
  · intro t
    rw [← sends_iff hs.coupled t]
    exact (run_returned h).offered t
  · intro t hfin hstuck
    change ¬CallerCanStep _ t _ at hstuck
    cases hp : (machine.after (initial number mode o) es).callers t <;> rw [hp] at hfin hstuck
    case sending => exact .inl trivial
    case awaiting b tasks ending looks => exact .inr ⟨b, tasks, ending, looks, rfl, hstuck⟩
    case idle => exact absurd (.inl trivial) hfin
    case done => exact absurd (.inr trivial) hfin
    all_goals exact absurd trivial hstuck
  · obtain ⟨handled, hd⟩ := reachable_delivered hr
    rw [handedOff_accounted hs hd, ← run_attempts h, List.append_assoc]
    rfl

end

/-- The worker is stuck in the first write. The second line is in the slot, and the third thread
waits for its turn. -/
def stall : List (Stamp × Event) :=
  let logs (n : Nat) (text : String) : List Event :=
    [.start (.caller n) ⟨.leveled .info (.text text) [], [], [], .usual⟩]
  let step (n k : Nat) : List Event := List.replicate k (.caller (.caller n))
  let work (k : Nat) : List Event := List.replicate k (.worker none)
  let events : List Event :=
    work 3 ++ logs 0 "a" ++ step 0 7 ++ work 2 ++ step 0 3 ++ work 1 ++ logs 1 "b" ++ step 1 7 ++
      logs 2 "c" ++ step 2 3
  events.map (⟨2024, 5, 6, 7, 8, 9, 1234⟩, ·)

theorem stall_holds_two_lines :
    let s := machine.after (initial 1 .bytes infoOnly) stall
    s.finished = 0 ∧
      sent (initial 1 .bytes infoOnly) stall = [(.caller 0, Text.points "<2>:a\n".toList)] ∧
      s.stock = [Text.points "<2>:a\n".toList, Text.points "<2>:b\n".toList] ∧
      BackPressured 1 .bytes infoOnly stall s :=
  ⟨by decide +kernel, by decide +kernel, by decide +kernel,
    callers_one_line_ahead (by decide +kernel)⟩

end LeveledLog.Logger
