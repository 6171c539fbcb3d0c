import LeveledLog.Proofs.Logger.Backpressure
import LeveledLog.Proofs.Logger.OwnCalls

/-!
What it means to have waited. A barrier goes the way of the lines, and only the worker releases
it, in its turn; so when the thread that handed it off goes on, the worker has finished with every
line that came before. Which thread's barrier it is shows in its number. That the wait ever ends is
not claimed.
-/

namespace LeveledLog.Logger

/-- The parcels that the worker has begun to deal with, and the threads that handed them off. -/
def State.dealt (s : State) : List (Thread × Parcel) :=
  s.channel.deposited.take (s.attempts.length + s.released.length)

def Distinct (s : State) : Prop :=
  ∀ p q b, .barrier b ∈ s.channel.offered p → .barrier b ∈ s.channel.offered q → p = q

section

variable {now : Stamp} {s u : State} {e : Event} {t : Thread} {b : Nat}

theorem parcels_length (l : List Parcel) :
    (l.filterMap Parcel.line?).length + (l.filterMap Parcel.barrier?).length = l.length := by
  induction l with
  | nil => rfl
  | cons x xs ih =>
    cases x <;> simp only [List.filterMap_cons, Parcel.line?, Parcel.barrier?, List.length_cons] <;>
      omega

theorem Delivered.dealt {handled : List Parcel} (h : Delivered s handled) (hs : Sound s) :
    s.dealt.map Prod.snd = handled := by
  have hlength : s.attempts.length + s.released.length = handled.length := by
    rw [← parcels_length, h.lines, h.barriers, List.length_reverse]
  rw [State.dealt, List.map_take, hlength]
  exact (List.prefix_iff_eq_take.mp (handled_deposited hs h)).symm

theorem handed_barrier (h : .barrier b ∈ handed s t e) : b = s.barriers ∧ e = .caller t := by
  cases e with
  | caller q =>
    by_cases hq : q = t
    · subst q
      simp only [handed, atStep, if_true] at h
      split at h <;> simp_all
    · simp [handed, atStep, hq] at h
  | _ => cases h

theorem initial_distinct (number : Nat) (mode : Mode) (o : Options) :
    Distinct (initial number mode o) := by
  intro p q b hp
  simp [initial, Handoff.initial, Handoff.State.offered, Handoff.State.deposits,
    Handoff.Phase.pending] at hp

theorem move_keeps_distinct (hm : Move now s e u) (hs : Sound s) (hn : Numbered s)
    (h : Distinct s) : Distinct u := by
  intro p q b hp hq
  rw [move_offered hm hs, List.mem_append] at hp hq
  rcases hp with hp | hp <;> rcases hq with hq | hq
  · exact h p q b hp hq
  · obtain ⟨rfl, -⟩ := handed_barrier hq
    exact absurd (hn.below p _ hp) (Nat.lt_irrefl _)
  · obtain ⟨rfl, -⟩ := handed_barrier hp
    exact absurd (hn.below q _ hq) (Nat.lt_irrefl _)
  · have hsame := (handed_barrier hp).2.symm.trans (handed_barrier hq).2
    exact Event.caller.inj hsame

theorem reachable_distinct (h : Reachable s) : Distinct s := by
  refine (reachable_keeps (I := fun s => Numbered s ∧ Distinct s) ?_ ?_ h).2
  · intro number mode o
    exact ⟨initial_numbered number mode o, initial_distinct number mode o⟩
  · rintro now s e u hm hs ⟨hn, hd⟩
    exact ⟨move_keeps_numbered hm hs hn, move_keeps_distinct hm hs hn hd⟩

theorem dealt_deposited {d : Thread × Parcel} (h : d ∈ s.dealt) : d ∈ s.channel.deposited :=
  List.mem_of_mem_take h

theorem mem_released (hs : Sound s) {handled : List Parcel} (hd : Delivered s handled) :
    b ∈ s.released ↔ ∃ q, (q, .barrier b) ∈ s.dealt := by
  rw [hd.mem_released, ← hd.dealt hs, List.mem_map]
  constructor
  · rintro ⟨⟨q, x⟩, hmem, rfl⟩
    exact ⟨q, hmem⟩
  · rintro ⟨q, hmem⟩
    exact ⟨_, hmem, rfl⟩

/-- A barrier of a thread is released exactly when the worker has dealt with that very parcel. -/
theorem own_released (hr : Reachable s) (hb : .barrier b ∈ s.channel.offered t) :
    (b ∈ s.released ↔ (t, .barrier b) ∈ s.dealt) ∧
      ∀ q, (q, .barrier b) ∈ s.channel.deposited → q = t := by
  have hs := reachable_sound hr
  obtain ⟨handled, hd⟩ := reachable_delivered hr
  have hunique : ∀ q, (q, .barrier b) ∈ s.channel.deposited → q = t :=
    fun q hq => reachable_distinct hr q t b (Handoff.mem_offered hq) hb
  refine ⟨(mem_released hs hd).trans ?_, hunique⟩
  constructor
  · rintro ⟨q, hq⟩
    exact hunique q (dealt_deposited hq) ▸ hq
  · intro ht
    exact ⟨t, ht⟩

end

section

variable {number : Nat} {mode : Mode} {o : Options} {es : List (Stamp × Event)}

/-- What the worker has finished with, with the barriers that it has released. -/
theorem run_settled (h : machine.Valid (initial number mode o) es) :
    ∃ settled, settled <+:
      (machine.after (initial number mode o) es).channel.deposited.map Prod.snd ∧
      settled.filterMap Parcel.line? = (results (initial number mode o) es).map Prod.fst ∧
      ∀ b ∈ (machine.after (initial number mode o) es).released, .barrier b ∈ settled := by
  have hr := reachable_of_valid h
  obtain ⟨settled, hd⟩ := reachable_at_hand hr
  set s := machine.after (initial number mode o) es
  refine ⟨settled, ?_, ?_, ?_⟩
  · exact (List.prefix_append _ _).trans (handled_deposited (reachable_sound hr) hd)
  · have hlines := hd.lines
    rw [← run_attempts h, List.filterMap_append] at hlines
    have hhand : (s.atHand.map Parcel.line).filterMap Parcel.line? = s.atHand := by
      rw [List.filterMap_map]
      exact List.filterMap_some
    rw [hhand] at hlines
    exact List.append_cancel_right hlines
  · intro b hb
    rcases List.mem_append.mp (hd.mem_released.mp hb) with hmem | hmem
    · exact hmem
    · simp at hmem

structure WriteBarrier (number : Nat) (mode : Mode) (o : Options) (es : List (Stamp × Event))
    (s : State) : Prop where
  /-- When a call answers that it has waited, the worker has finished with every line whose hand-off
  had returned before the call began, and with every line that was in the slot by then. -/
  covered : ∀ before now t i rest looks, es = before ++ (now, .start t i) :: rest →
    s.callers t = .done (.returned (.bool true)) looks →
    let mid := machine.after (initial number mode o) before
    sent (initial number mode o) before <+: mid.handedOff ∧
      mid.handedOff.map Prod.snd <+: (results (initial number mode o) es).map Prod.fst
  /-- The worker has released the barrier that this very call handed off. -/
  crossed : ∀ before now t i rest looks, es = before ++ (now, .start t i) :: rest →
    s.callers t = .done (.returned (.bool true)) looks →
    ∃ b, (t, .barrier b) ∈ s.dealt ∧
      (t, .barrier b) ∉ (machine.after (initial number mode o) before).channel.deposited ∧
      ∀ q, (q, .barrier b) ∈ s.channel.deposited → q = t
  /-- A thread that waits can go on exactly when its own barrier has been dealt with, and no other
  thread has a barrier of that number. -/
  waiting : ∀ t b tasks ending looks, s.callers t = .awaiting b tasks ending looks →
    (Enabled s (.caller t) ↔ (t, .barrier b) ∈ s.dealt) ∧
      ∀ q, (q, .barrier b) ∈ s.channel.deposited → q = t
  /-- Of what the worker has dealt with, the lines have gone to the destination, and the barriers
  have been released. -/
  apart : s.dealt.filterMap (fun d => d.2.line?) = s.attempts ∧
    s.dealt.filterMap (fun d => d.2.barrier?) = s.released.reverse
  /-- A call that waits answers that it has, unless it comes from the worker itself. -/
  answers : (∀ t i outcome looks, latest t es = some i → i.call = .sync →
      s.callers t = .done outcome looks → t ≠ s.own ∧ outcome = .returned (.bool true)) ∧
    s.ownOutcomes = (ownAnswers (initial number mode o) es).map Prod.snd ∧
    ∀ c ∈ ownAnswers (initial number mode o) es, c.1.call = .sync → c.2 = .returned (.bool false)

theorem sync_is_write_barrier (h : machine.Valid (initial number mode o) es) :
    WriteBarrier number mode o es (machine.after (initial number mode o) es) := by
  have hr := reachable_of_valid h
  have hs := reachable_sound hr
  refine ⟨?_, ?_, ?_, ?_, ?_, run_own_answers h, own_syncs_false _ es⟩
  · rintro before now t i rest looks rfl waited mid
    obtain ⟨hbefore, hrest⟩ := (machine.valid_append _ _ _).mp h
    have hidle : mid.callers t = .idle := isIdle_iff.mp hrest.1.2
    obtain ⟨settled, hprefix, hlines, hreleased⟩ := run_settled h
    rw [Machine.after_append] at waited hprefix hreleased
    have hcover := run_covered (reachable_of_valid hbefore) hidle hrest waited hprefix hreleased
    refine ⟨sent_handedOff hbefore, ?_⟩
    rw [← hlines, handedOff_lines]
    exact hcover.filterMap _
  · rintro before now t i rest looks rfl waited
    obtain ⟨hbefore, hrest⟩ := (machine.valid_append _ _ _).mp h
    have hrb := reachable_of_valid hbefore
    have hsync := (run_synced hrb (isIdle_iff.mp hrest.1.2) hrest).2
    rw [← Machine.after_append, waited] at hsync
    obtain ⟨b, earlier, hle, hoffered, -, hreleased⟩ := hsync rfl
    obtain ⟨hown, hunique⟩ := own_released hr (t := t) (b := b) (by rw [hoffered]; simp)
    refine ⟨b, hown.mp hreleased, fun hmem => ?_, hunique⟩
    have hlt := (reachable_numbered hrb).below t b (Handoff.mem_offered hmem)
    omega
  · intro t b tasks ending looks awaiting
    obtain ⟨earlier, hoffered, -⟩ :=
      (reachable_numbered hr).waiting t b (by simp [Progress.barrier?, awaiting])
    obtain ⟨hown, hunique⟩ := own_released hr (t := t) (b := b) (by rw [hoffered]; simp)
    refine ⟨Iff.trans ?_ hown, hunique⟩
    change CallerCanStep _ t _ ↔ _
    rw [awaiting]
    rfl
  · obtain ⟨handled, hd⟩ := reachable_delivered hr
    rw [← hd.lines, ← hd.barriers, ← hd.dealt hs, List.filterMap_map, List.filterMap_map]
    exact ⟨rfl, rfl⟩
  · intro t i outcome looks hlatest hsync hdone
    exact ⟨hs.coupled.ne_own hdone (by simp), (run_answers h hlatest hdone).sync hsync⟩

end

/-- Two threads wait while a write goes on that then fails. -/
def crossing : List (Stamp × Event) :=
  let step (n k : Nat) : List Event := List.replicate k (.caller (.caller n))
  let work (k : Nat) : List Event := List.replicate k (.worker none)
  let waits (n : Nat) : List Event := [.start (.caller n) ⟨.sync, [], [], .usual⟩]
  let events : List Event :=
    work 3 ++ [.start (.caller 0) ⟨.leveled .info (.text "a") [], [], [], .usual⟩] ++ step 0 7 ++
      work 2 ++
      step 0 3 ++ work 1 ++ waits 1 ++ step 1 6 ++ waits 2 ++ step 2 2 ++
      [.worker (some (.scripted .system))] ++ work 3 ++ step 1 3 ++ step 2 4 ++ work 3 ++
      step 1 2 ++ step 2 3 ++ work 1 ++ step 2 2
  events.map (⟨2024, 5, 6, 7, 8, 9, 1234⟩, ·)

theorem crossing_waits_for_failed_line :
    let s := machine.after (initial 1 .bytes infoOnly) crossing
    s.dealt = [(.caller 0, .line (Text.points "<2>:a\n".toList)), (.caller 1, .barrier 0),
        (.caller 2, .barrier 1)] ∧
      IsDone (s.callers (.caller 1)) ∧ IsDone (s.callers (.caller 2)) ∧
      (results (initial 1 .bytes infoOnly) crossing).map Prod.fst = [Text.points "<2>:a\n".toList] ∧
      WriteBarrier 1 .bytes infoOnly crossing s :=
  ⟨by decide +kernel, by decide +kernel, by decide +kernel, by decide +kernel,
    sync_is_write_barrier (by decide +kernel)⟩

end LeveledLog.Logger
