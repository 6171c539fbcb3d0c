import LeveledLog.Proofs.Logger.Calls

/-!
Waiting for the worker. A call returns that it has waited only after its own barrier, handed off
during the call, was released, and by then the worker has dealt with all that came to the slot
before it. That the barrier is ever released is not claimed.
-/

namespace LeveledLog.Logger

/-- The latest parcel of a thread is a released barrier, with a number from `n` on. -/
def Crossed (n : Nat) (s : State) (t : Thread) : Prop :=
  ∃ b before, n ≤ b ∧ s.channel.offered t = before ++ [.barrier b] ∧ .barrier b ∉ before ∧
    b ∈ s.released

/-- How far a call that is going to return that it has waited has come with its barrier. -/
def Synced (n : Nat) (s : State) (t : Thread) : Progress → Prop
  | .handing tasks ending _ =>
    ending = .value (.bool true) → tasks = [.barrier] ∨ (tasks = [] ∧ Crossed n s t)
  | .sending w tasks ending _ =>
    ending = .value (.bool true) → (∃ b, w = some b ∧ n ≤ b) ∧ tasks = []
  | .awaiting b tasks ending _ => ending = .value (.bool true) → n ≤ b ∧ tasks = []
  | .done outcome _ => outcome = .returned (.bool true) → Crossed n s t
  | _ => True

theorem Crossed.kept {n : Nat} {s u : State} {t : Thread} (h : Crossed n s t)
    (hoffered : u.channel.offered t = s.channel.offered t)
    (hreleased : s.released ⊆ u.released) : Crossed n u t := by
  obtain ⟨b, before, hle, ho, hb, hr⟩ := h
  exact ⟨b, before, hle, hoffered.trans ho, hb, hreleased hr⟩

theorem Synced.kept {n : Nat} {s u : State} {t : Thread} {p : Progress} (h : Synced n s t p)
    (hc : Crossed n s t → Crossed n u t) : Synced n u t p := by
  cases p with
  | handing tasks ending looks =>
    intro he
    rcases h he with hb | ⟨hnil, hcs⟩
    · exact .inl hb
    · exact .inr ⟨hnil, hc hcs⟩
  | done outcome looks => exact fun ho => hc (h ho)
  | _ => exact h

theorem move_released {now : Stamp} {s u : State} {e : Event} (hm : Move now s e u) :
    s.released ⊆ u.released := by
  cases hm with
  | release => exact List.subset_cons_self _ _
  | _ => exact fun _ => id

theorem sync_tasks {o o' : Options} {now : Stamp} {i : Invocation} {p : Plan} {looks : Nat}
    (made : (Plan.make o now i).run.run 0 = (.ok (o', p), looks))
    (waited : p.ending = .value (.bool true)) : p.tasks = [.barrier] := by
  have ho : (Plan.make o now i).outcome = .ok (o', p) := by rw [Render.outcome, made]
  unfold Plan.make at ho
  cases hc : i.call <;> rw [hc] at ho
  case sync =>
    obtain ⟨-, rfl⟩ := Prod.mk.inj (Except.ok.inj ho)
    rfl
  case setPrefix =>
    obtain ⟨-, rfl⟩ := Prod.mk.inj (Except.ok.inj ho)
    cases waited
  all_goals
    obtain ⟨a, _, ha⟩ := Render.of_outcome_ok ho
    obtain ⟨-, rfl⟩ := Prod.mk.inj ha
    cases waited

theorem flushNext_outcome {streams : List Stream} {flushed : List String} {looks looks' : Nat}
    {v : Value} : flushNext streams flushed looks ≠ .done (.returned v) looks' := by
  unfold flushNext
  repeat' split
  all_goals simp

theorem move_keeps_crossed {now : Stamp} {n : Nat} {s u : State} {e : Event} {t : Thread}
    (hm : Move now s e u) (hs : Sound s) (unhanded : handed s t e = []) (h : Crossed n s t) :
    Crossed n u t := by
  have hoffered := move_offered hm hs t
  rw [unhanded, List.append_nil] at hoffered
  exact h.kept hoffered (move_released hm)

theorem Advance.synced {now : Stamp} {n : Nat} {s u : State} {e : Event} {t : Thread}
    {p q : Progress} (ha : Advance now s t e p q) (hp : s.callers t = p) (hn : Numbered s)
    (hle : n ≤ s.barriers) (hkept : handed s t e = [] → Crossed n s t → Crossed n u t)
    (h : Synced n s t p) : Synced n u t q := by
  cases ha with
  | @start i => rcases begin_cases i with ⟨hb, _⟩ | ⟨_, _, _, hb, _⟩ <;> rw [hb] <;> trivial
  | collect | pass => trivial
  | drop | refuse => exact fun ho => absurd ho (by simp)
  | compose made => exact fun waited => .inl (sync_tasks made waited)
  | @finish ending looks =>
    cases ending with
    | value v =>
      intro ho
      rcases h (by simpa using ho) with hb | ⟨_, hcrossed⟩
      · cases hb
      · exact hkept (by simp [handed, atStep, hp]) hcrossed
    | fault f => exact fun ho => absurd ho (by simp)
    | exit streams => trivial
  | handLine =>
    intro waited
    rcases h waited with hb | ⟨hnil, _⟩
    · simp at hb
    · cases hnil
  | handBarrier =>
    intro waited
    rcases h waited with hb | ⟨hnil, _⟩
    · exact ⟨⟨s.barriers, rfl, hle⟩, (List.cons.inj hb).2⟩
    · cases hnil
  | send => exact h
  | sentLine =>
    intro waited
    obtain ⟨⟨b, hb, _⟩, _⟩ := h waited
    cases hb
  | sentBarrier =>
    intro waited
    obtain ⟨⟨b, hb, hnb⟩, hnil⟩ := h waited
    obtain rfl := Option.some.inj hb
    exact ⟨hnb, hnil⟩
  | @cross b tasks ending looks reached =>
    intro waited
    obtain ⟨hnb, hnil⟩ := h waited
    obtain ⟨before, ho, hb⟩ := hn.waiting t b (by simp [Progress.barrier?, hp])
    have hcrossed : Crossed n s t := ⟨b, before, hnb, ho, hb, reached⟩
    exact .inr ⟨hnil, hkept (by simp [handed, atStep, hp]) hcrossed⟩
  | @flushStream streams flushed looks =>
    have hspent := flushNext_spent streams flushed looks
    cases hf : flushNext streams flushed looks with
    | flushing => trivial
    | done outcome looks => exact fun ho => absurd (ho ▸ hf) flushNext_outcome
    | _ => rw [hf] at hspent; exact hspent.elim

theorem move_keeps_synced {now : Stamp} {n : Nat} {s u : State} {e : Event}
    (hm : Move now s e u) (hs : Sound s) (hn : Numbered s) (hle : n ≤ s.barriers) {t : Thread}
    (h : Synced n s t (s.callers t)) : Synced n u t (u.callers t) := by
  by_cases ht : e.caller? = some t
  · exact (move_advance hm ht).synced rfl hn hle (move_keeps_crossed hm hs) h
  · rw [move_callers hm ht]
    exact h.kept (move_keeps_crossed hm hs (atStep_other ht))

theorem move_barriers {now : Stamp} {s u : State} {e : Event} (hm : Move now s e u) :
    s.barriers ≤ u.barriers := by
  cases hm with
  | handBarrier => exact Nat.le_succ _
  | _ => exact Nat.le_refl _

theorem move_deposited {now : Stamp} {s u : State} {e : Event} (hm : Move now s e u)
    (hs : Sound s) : s.channel.deposited <+: u.channel.deposited := by
  rcases move_channel hm hs.coupled with hc | ⟨c, he, hc⟩
  · exact hc ▸ List.prefix_rfl
  · rw [hc]
    exact Handoff.move_deposited (Handoff.move_of_enabled he)

section

variable {s : State} {es : List (Stamp × Event)} {t : Thread}

theorem run_deposited (hr : Reachable s) (h : machine.Valid s es) :
    s.channel.deposited <+: (machine.after s es).channel.deposited := by
  induction es, h using Machine.run_induction with
  | nil => exact List.prefix_rfl
  | snoc es e hes he ih =>
    rw [Machine.after_append]
    exact ih.trans (move_deposited (machine_move he) (reachable_sound (hr.run hes)))

theorem run_synced (hr : Reachable s) (idle : s.callers t = .idle) (h : machine.Valid s es) :
    s.barriers ≤ (machine.after s es).barriers ∧
      Synced s.barriers (machine.after s es) t ((machine.after s es).callers t) := by
  induction es, h using Machine.run_induction with
  | nil =>
    refine ⟨Nat.le_refl _, ?_⟩
    change Synced s.barriers s t (s.callers t)
    rw [idle]
    trivial
  | snoc es e hes he ih =>
    obtain ⟨hle, hsync⟩ := ih
    have hm := machine_move he
    have hmid := hr.run hes
    rw [Machine.after_append]
    exact ⟨Nat.le_trans hle (move_barriers hm),
      move_keeps_synced hm (reachable_sound hmid) (reachable_numbered hmid) hle hsync⟩

theorem handled_deposited {handled : List Parcel} (hs : Sound s) (h : Delivered s handled) :
    handled <+: s.channel.deposited.map Prod.snd := by
  rw [hs.channel.conserved.order, h.taken, List.append_assoc]
  exact List.prefix_append _ _

theorem Crossed.fresh {n : Nat} {u : State} (hr : Reachable s) (h : Crossed n u t)
    (hn : s.barriers ≤ n) :
    ∃ b ∈ u.released, .barrier b ∉ s.channel.deposited.map Prod.snd := by
  obtain ⟨b, _, hle, _, _, hreleased⟩ := h
  refine ⟨b, hreleased, fun hmem => ?_⟩
  obtain ⟨q, hq⟩ := Handoff.mem_offered_of_deposited hmem
  have hlt := (reachable_numbered hr).below q b hq
  omega

/-- Where the released barriers have gone, all has gone that was in the slot before one of them. -/
theorem fresh_covered (hr : Reachable s) (h : machine.Valid s es)
    (hfresh : ∃ b ∈ (machine.after s es).released, .barrier b ∉ s.channel.deposited.map Prod.snd)
    {gone : List Parcel} (hgone : gone <+: (machine.after s es).channel.deposited.map Prod.snd)
    (hreleased : ∀ b ∈ (machine.after s es).released, .barrier b ∈ gone) :
    s.channel.deposited.map Prod.snd <+: gone := by
  obtain ⟨b, hb, hnew⟩ := hfresh
  have hgrown := (run_deposited hr h).map Prod.snd
  rcases List.prefix_or_prefix_of_prefix hgrown hgone with hp | hp
  · exact hp
  · exact absurd (hp.subset (hreleased b hb)) hnew

/-- Whoever has waited has waited for a barrier that came later than all that was there before. -/
theorem run_covered (hr : Reachable s) (idle : s.callers t = .idle) (h : machine.Valid s es)
    {looks : Nat}
    (waited : (machine.after s es).callers t = .done (.returned (.bool true)) looks)
    {gone : List Parcel} (hgone : gone <+: (machine.after s es).channel.deposited.map Prod.snd)
    (hreleased : ∀ b ∈ (machine.after s es).released, .barrier b ∈ gone) :
    s.channel.deposited.map Prod.snd <+: gone := by
  have hsync := (run_synced hr idle h).2
  rw [waited] at hsync
  exact fresh_covered hr h ((hsync rfl).fresh hr (Nat.le_refl _)) hgone hreleased

/-- Whoever has waited has waited for all that was in the slot before. -/
theorem run_waited (hr : Reachable s) (idle : s.callers t = .idle) (h : machine.Valid s es)
    {looks : Nat}
    (waited : (machine.after s es).callers t = .done (.returned (.bool true)) looks)
    {handled : List Parcel} (hd : Delivered (machine.after s es) handled) :
    s.channel.deposited.map Prod.snd <+: handled :=
  run_covered hr idle h waited (handled_deposited (reachable_sound (hr.run h)) hd)
    fun _ => hd.mem_released.mp

end

end LeveledLog.Logger
