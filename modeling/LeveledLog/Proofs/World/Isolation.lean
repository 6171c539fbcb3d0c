import LeveledLog.Proofs.World.Unwinding

/-!
What a logger has to do with the others of its program: nothing, if no two write to the same place.
Their calls and turns can be left out, and whether the logger can go on is not for them to say,
whatever state they are in. A call that ends the program is taken as any other, and what the end
does to the threads of other loggers is left out.
-/

namespace LeveledLog.World

def Event.concerns (m : Nat) (e : Event) : Bool := e.member?.all (· == m)

/-- A run without the calls of the other loggers, and without their turns. -/
def purged (m : Nat) (es : List Event) : List Event := es.filter (Event.concerns m)

def answered (m : Nat) (w : World) : Event → List (Thread × Outcome)
  | .collect k t => if k = m then (w.outcomeOf? m t).toList.map (t, ·) else []
  | _ => []

section

variable {m : Nat} {w v : World} {e : Event} {es : List Event}

theorem concerns_cases (m : Nat) (e : Event) :
    (e.shared = true ∧ e.concerns m = true) ∨ (e.member? = some m ∧ e.concerns m = true) ∨
      ∃ k, e.member? = some k ∧ k ≠ m ∧ e.concerns m = false := by
  unfold Event.shared Event.concerns
  cases e.member? with
  | none => exact .inl ⟨rfl, rfl⟩
  | some k =>
    by_cases hk : k = m
    · exact .inr (.inl ⟨congrArg some hk, by simpa using hk⟩)
    · exact .inr (.inr ⟨k, rfl, hk, by simpa using hk⟩)

theorem answered_other {k : Nat} (he : e.member? = some k) (hk : k ≠ m) : answered m w e = [] := by
  cases e with
  | collect j t =>
    obtain rfl : j = k := Option.some.inj he
    exact if_neg hk
  | _ => rfl

/-- An event that concerns the logger happens in both programs alike. -/
theorem concerning_step (h : Alike m w v) (hs : w.shape.Sound) (distinct : w.shape.homes.Nodup)
    (hc : e.concerns m = true) (ready : Enabled w e) :
    Enabled v e ∧ Alike m (next w e) (next v e) ∧ answered m w e = answered m v e := by
  have hclose := h.close hs distinct
  have hanswered : answered m w e = answered m v e := by
    cases e with
    | collect j t => rw [answered, answered, hclose.outcome t]
    | _ => rfl
  rcases concerns_cases m e with ⟨he, -⟩ | ⟨he, -⟩ | ⟨k, -, -, hnot⟩
  · refine ⟨?_, shared_alike h hs he, hanswered⟩
    cases e with
    | make | setClock | permit => trivial
    | start | caller | worker | collect => cases he
  · exact ⟨(hclose.enabled he).mp ready, own_alike h hs distinct he ready, hanswered⟩
  · rw [hc] at hnot
    cases hnot

/-- Any other event goes unnoticed. -/
theorem unconcerning_step (h : Alike m w v) (hs : w.shape.Sound) (distinct : w.shape.homes.Nodup)
    (hc : e.concerns m = false) : Alike m (next w e) v ∧ answered m w e = [] := by
  rcases concerns_cases m e with ⟨-, hnot⟩ | ⟨-, hnot⟩ | ⟨k, he, hk, -⟩
  · rw [hc] at hnot
    cases hnot
  · rw [hc] at hnot
    cases hnot
  · exact ⟨((own_touched hs distinct he).alike hk).symm.trans h, answered_other he hk⟩

theorem run_alike (hs : w.shape.Sound) (h : machine.Valid w es)
    (distinct : (machine.after w es).shape.homes.Nodup) :
    machine.Valid w (purged m es) ∧
      Alike m (machine.after w es) (machine.after w (purged m es)) ∧
      machine.history (answered m) w es = machine.history (answered m) w (purged m es) := by
  induction es, h using Machine.run_induction with
  | nil => exact ⟨trivial, Alike.refl m w, rfl⟩
  | snoc es e hes ready ih =>
    have hsound := run_sound hs es
    rw [Machine.after_append] at distinct
    have hgrown : (machine.after w es).shape.homes <+:
        (next (machine.after w es) e).shape.homes := next_homes hsound e
    have hbefore := distinct.sublist hgrown.sublist
    obtain ⟨hvalid, halike, hhistory⟩ := ih hbefore
    cases hc : e.concerns m with
    | true =>
      obtain ⟨hready, hnext, hanswer⟩ := concerning_step halike hsound hbefore hc ready
      have hpurged : purged m (es ++ [e]) = purged m es ++ [e] := by simp [purged, hc]
      rw [hpurged]
      refine ⟨Machine.valid_snoc.mpr ⟨hvalid, hready⟩, ?_, ?_⟩
      · rw [Machine.after_append, Machine.after_append]
        exact hnext
      · rw [Machine.history_append, Machine.history_append, hhistory]
        simp only [Machine.history, hanswer]
    | false =>
      obtain ⟨hnext, hanswer⟩ := unconcerning_step halike hsound hbefore hc
      have hpurged : purged m (es ++ [e]) = purged m es := by simp [purged, hc]
      rw [hpurged]
      refine ⟨hvalid, ?_, ?_⟩
      · rw [Machine.after_append]
        exact hnext
      · rw [Machine.history_append, hhistory]
        simp only [Machine.history, hanswer, List.append_nil]

/-- A logger after two runs, but for how writes to the system log have ended. -/
structure SameLogger (x y : Member) : Prop where
  number : x.state.number = y.state.number
  destination : x.destination = y.destination
  attempts : x.state.attempts = y.state.attempts
  settings : x.state.options = y.state.options
  /-- Every thread's call is at the same place, or has ended in the same way. -/
  callers : x.state.callers = y.state.callers
  ownOutcomes : x.state.ownOutcomes = y.state.ownOutcomes

theorem Matches.same_logger {x y : Member} (h : Matches x y) : SameLogger x y := by
  have hcalm : ∀ {α : Type} (f : Logger.State → α), f x.state.calm = f y.state.calm :=
    fun f => congrArg f h.calm
  exact ⟨hcalm (·.number), h.destination, hcalm (·.attempts), hcalm (·.options),
    hcalm (·.callers), hcalm (·.ownOutcomes)⟩

structure Unaffected (m : Nat) (w : World) (es fs : List Event) : Prop where
  logger : ∀ x, (machine.after w es).members[m]? = some x →
    ∃ y, (machine.after w fs).members[m]? = some y ∧ SameLogger x y
  /-- The outlet, and with it all that was written there, and how the writes have ended. -/
  outlet : ∀ x name, (machine.after w es).members[m]? = some x → x.destination = .outlet name →
    (machine.after w es).outlet? name = (machine.after w fs).outlet? name
  answers : machine.history (answered m) w es = machine.history (answered m) w fs
  enabled : ∀ e, e.member? = some m →
    (Enabled (machine.after w es) e ↔ Enabled (machine.after w fs) e)

structure Isolated (m : Nat) (w : World) (es : List Event) : Prop where
  /-- All that is done on other loggers can be left out. -/
  run : machine.Valid w (purged m es)
  /-- Whatever else is done on them instead, or nothing, makes no difference. -/
  same : ∀ fs, machine.Valid w fs → purged m fs = purged m es → Unaffected m w es fs
  /-- In any other state of the program that has the logger and its outlet as they are, the same
  callers can go on, and the worker can if it can here. -/
  free : ∀ v e, v.members[m]? = (machine.after w es).members[m]? →
    (∀ x name, v.members[m]? = some x → x.destination = .outlet name →
      v.outlet? name = (machine.after w es).outlet? name) →
    e.member? = some m → (Enabled (machine.after w es) e ↔ Enabled v e)

theorem purged_shared (m : Nat) (es : List Event) :
    es.filter Event.shared = (purged m es).filter Event.shared := by
  rw [purged, List.filter_filter]
  refine List.filter_congr fun e _ => ?_
  rcases concerns_cases m e with ⟨he, hc⟩ | ⟨he, hc⟩ | ⟨k, he, -, hc⟩
  · rw [he, hc]
    rfl
  · rw [hc, Bool.and_true]
  · simp [Event.shared, he]

end

def Destination.outletName : Destination → Option String
  | .outlet name => some name
  | _ => none

def bareProgram : World where
  clock := ⟨2024, 5, 6, 7, 8, 9, 1234⟩
  program := []
  host := .usual
  process := 1
  environment := []
  files := Files.empty
  network := ⟨false, [], 0, [], [], [], false⟩
  outlets := []
  members := []
  names := []
  active := []
  spawned := []
  noticeLevel := .warning
  target := none
  notices := []
  looks := 0

/-- Two loggers. The second one's worker gets stuck in a write, then the first one writes a line. -/
def stuckNeighbour : List Event :=
  let wanted : Wanted := ⟨.priority .info, .text "", .flags .empty⟩
  let logs (m : Nat) (text : String) : List Event :=
    [.start m (.caller m) ⟨.leveled .info (.text text) [], [], [], .usual⟩]
  let step (m k : Nat) : List Event := List.replicate k (.caller m (.caller m))
  let work (m k : Nat) : List Event := List.replicate k (.worker m)
  [.make (.outlet (Outlet.plain "a" .text)) wanted,
    .make (.outlet { Outlet.plain "b" .text with gated := true }) wanted] ++
    work 1 3 ++ logs 1 "b" ++ step 1 7 ++ work 1 2 ++ step 1 3 ++ work 1 1 ++
    work 0 3 ++ logs 0 "a" ++ step 0 7 ++ work 0 2 ++ step 0 3 ++ work 0 2 ++ step 0 1 ++
    [.collect 0 (.caller 0)]

end LeveledLog.World
