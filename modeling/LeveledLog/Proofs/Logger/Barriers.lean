import LeveledLog.Proofs.Logger.Delivery

/-!
Which barrier a thread waits for. It is the last parcel of the thread, and no other parcel at the
hand-off has its number, so nobody goes on because of a barrier that is not its own.
-/

namespace LeveledLog

def Progress.barrier? : Progress → Option Nat
  | .sending w _ _ _ => w
  | .awaiting b _ _ _ => some b
  | _ => none

namespace Logger

def handed (s : State) (t : Thread) (e : Event) : List Parcel :=
  atStep t s e fun
    | .handing (.line l :: _) _ _ => [.line l]
    | .handing (.barrier :: _) _ _ => [.barrier s.barriers]
    | _ => []

theorem move_offered {now : Stamp} {s u : State} {e : Event} (hm : Move now s e u)
    (hs : Sound s) (t : Thread) :
    u.channel.offered t = s.channel.offered t ++ handed s t e := by
  have hc := hs.coupled
  have hoffer : ∀ {c}, Handoff.Enabled s.channel c →
      (Handoff.next s.channel c).offered t = s.channel.offered t ++ c.offer t :=
    fun he => Handoff.move_offered (Handoff.move_of_enabled he) t
  cases hm with
  | handLine handing | handBarrier handing =>
    refine (hoffer (hc.hand_enabled handing _)).trans ?_
    simp [Handoff.Event.offer, handed, atStep, handing]
  | send w ready | sentLine w ready | sentBarrier w ready =>
    refine (hoffer ready).trans ?_
    simp [Handoff.Event.offer, handed, atStep, w]
  | take receiving ready => exact hoffer ready
  | reported w => exact hoffer (c := .receive s.own) (hc.worker_rest (by simp [w]))
  | flushed w => exact hoffer (c := .receive s.own) (hc.worker_rest (by simp [w]))
  | release receiving received =>
    exact hoffer (c := .receive s.own) (by simp only [Handoff.Enabled, received]; trivial)
  | collect w | drop w | pass w | compose w | refuse w | finish w | cross w | flushStream w =>
    simp [handed, atStep, w]
  | _ => exact (List.append_nil _).symm

/-- Barriers are numbered as they come to the hand-off, and a thread waits for its latest one. -/
structure Numbered (s : State) : Prop where
  below : ∀ t b, .barrier b ∈ s.channel.offered t → b < s.barriers
  waiting : ∀ t b, (s.callers t).barrier? = some b →
    ∃ before, s.channel.offered t = before ++ [.barrier b] ∧ .barrier b ∉ before

theorem initial_numbered (number : Nat) (mode : Mode) (o : Options) :
    Numbered (initial number mode o) := by
  constructor
  · intro t b hb
    simp [initial, Handoff.initial, Handoff.State.offered, Handoff.State.deposits,
      Handoff.Phase.pending] at hb
  · intro t b hb
    simp [initial, Progress.barrier?] at hb

theorem Numbered.kept {s u : State} (h : Numbered s) (hbarriers : u.barriers = s.barriers)
    (hoffered : ∀ t, u.channel.offered t = s.channel.offered t)
    (hcallers : ∀ t b, (u.callers t).barrier? = some b → (s.callers t).barrier? = some b) :
    Numbered u := by
  constructor
  · intro t b hb
    rw [hoffered] at hb
    rw [hbarriers]
    exact h.below t b hb
  · intro t b hb
    rw [hoffered]
    exact h.waiting t b (hcallers t b hb)

theorem barrier_update {f : Thread → Progress} {t : Thread} {p : Progress}
    (hp : ∀ b, p.barrier? = some b → (f t).barrier? = some b) (q : Thread) (b : Nat)
    (hb : (update f t p q).barrier? = some b) : (f q).barrier? = some b := by
  by_cases hq : q = t
  · subst q
    rw [update_same] at hb
    exact hp b hb
  · rwa [update_other _ _ hq] at hb

theorem begin_barrier (i : Invocation) : (begin i).barrier? = none := by
  rcases begin_cases i with ⟨h, _⟩ | ⟨l, _, _, h, _⟩ <;> rw [h] <;> rfl

theorem Spent.barrier_eq {p : Progress} (h : Spent p) : p.barrier? = none := by
  cases p <;> first | rfl | exact h.elim

theorem move_keeps_numbered {now : Stamp} {s u : State} {e : Event} (hm : Move now s e u)
    (hs : Sound s) (h : Numbered s) : Numbered u := by
  have ho := move_offered hm hs
  cases hm with
  | @handLine t l rest ending looks handing =>
    constructor
    · intro q b hb
      rw [ho q] at hb
      refine h.below q b ?_
      by_cases hq : t = q
      · subst q
        simpa [handed, atStep, handing] using hb
      · simpa [handed, atStep, hq] using hb
    · intro q b hb
      have hq : q ≠ t := by
        rintro rfl
        simp [Progress.barrier?] at hb
      simp only [set_callers, update_other _ _ hq] at hb
      rw [ho q]
      simpa [handed, atStep, Ne.symm hq] using h.waiting q b hb
  | @handBarrier t rest ending looks handing =>
    constructor
    · intro q b hb
      rw [ho q, List.mem_append] at hb
      simp only [set_barriers]
      rcases hb with hb | hb
      · have hlt := h.below q b hb
        omega
      · by_cases hq : t = q
        · subst q
          simp [handed, atStep, handing] at hb
          omega
        · simp [handed, atStep, hq] at hb
    · intro q b hb
      rw [ho q]
      by_cases hq : q = t
      · subst q
        simp only [set_callers, update_same, Progress.barrier?, Option.some.injEq] at hb
        subst b
        refine ⟨s.channel.offered t, by simp [handed, atStep, handing], ?_⟩
        intro hmem
        exact absurd (h.below t s.barriers hmem) (Nat.lt_irrefl _)
      · simp only [set_callers, update_other _ _ hq] at hb
        simpa [handed, atStep, Ne.symm hq] using h.waiting q b hb
  | start other idle =>
    exact h.kept rfl (fun _ => rfl) (barrier_update (by simp [begin_barrier]))
  | collect w | drop w | pass w | compose w | refuse w | cross w =>
    exact h.kept rfl (fun _ => rfl) (barrier_update (by simp [Progress.barrier?]))
  | finish w =>
    exact h.kept rfl (fun _ => rfl) (barrier_update (by simp [(finish_spent _ _).barrier_eq]))
  | flushStream w =>
    exact h.kept rfl (fun _ => rfl) (barrier_update (by simp [(flushNext_spent _ _ _).barrier_eq]))
  | send w =>
    refine h.kept rfl (fun q => ?_) (fun _ _ => id)
    simpa [handed, atStep, w] using ho q
  | sentLine w | sentBarrier w =>
    refine h.kept rfl (fun q => ?_) (barrier_update (by simp [Progress.barrier?, w]))
    simpa [handed, atStep, w] using ho q
  | _ => exact h.kept rfl (fun q => (ho q).trans (List.append_nil _)) (fun _ _ => id)

theorem reachable_numbered {s : State} (h : Reachable s) : Numbered s :=
  reachable_keeps initial_numbered move_keeps_numbered h

end Logger

end LeveledLog
