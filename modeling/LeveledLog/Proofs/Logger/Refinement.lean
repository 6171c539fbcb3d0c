import LeveledLog.Proofs.Logger.Merge

/-!
A logger with a worker writes what one without a worker would. This is about a single calling
thread, in every order of its steps and the worker's: at each moment the writes are a beginning of
those of the direct logger, and all of them once the thread has waited. That a given line is
written by some time is not claimed.
-/

namespace LeveledLog.Logger

def OnlyThread (t : Thread) : Event → Prop
  | .start q _ => q = t
  | .caller q => q = t
  | .collect q => q = t
  | .worker _ => True
  | .ownCall _ => False

instance (t : Thread) : (e : Event) → Decidable (OnlyThread t e)
  | .start q _ => instDecidableEqThread q t
  | .caller q => instDecidableEqThread q t
  | .collect q => instDecidableEqThread q t
  | .worker _ => .isTrue trivial
  | .ownCall _ => .isFalse id

/-- What a thread's call has been checked for: a leveled one for its level. -/
def Checked (o : Options) : Progress → Prop
  | .deciding i l => ∃ format args, i.call = .leveled l format args
  | .composing i =>
    ∀ l format args, i.call = .leveled l format args → o.threshold ≤ l.priority
  | _ => True

theorem only_caller {t : Thread} {e : Event} (h : OnlyThread t e) :
    e.caller? = some t ∨ ∃ outcome, e = .worker outcome := by
  cases e with
  | start q i => exact .inl (congrArg some h)
  | caller q => exact .inl (congrArg some h)
  | collect q => exact .inl (congrArg some h)
  | worker outcome => exact .inr ⟨outcome, rfl⟩
  | ownCall i => exact h.elim

theorem writes_checked {o : Options} {now : Stamp} {i : Invocation}
    (h : Checked o (.composing i)) : Direct.writes o now i = Direct.emitted o.flags now i := by
  unfold Direct.writes
  cases hc : i.call with
  | leveled l format args => exact if_pos (h l format args hc)
  | _ => rfl

theorem writes_dropped {o : Options} {now : Stamp} {i : Invocation} {l : Level} {format : Value}
    {args : List Value} (hc : i.call = .leveled l format args)
    (low : o.loggable l.priority = false) : Direct.writes o now i = [] := by
  unfold Direct.writes
  rw [hc]
  exact if_neg (of_decide_eq_false low)

/-- The logger stands where the direct one stands after these calls. -/
structure Follows (t : Thread) (o : Options) (calls : List (Stamp × Invocation))
    (log : List (List CodePoint)) (s : State) : Prop where
  options : s.options = Direct.settle o calls
  lines : log = Direct.log o calls
  checked : Checked s.options (s.callers t)
  silent : ∀ q, q ≠ t → s.channel.offered q = []

theorem Follows.kept {t : Thread} {o : Options} {calls : List (Stamp × Invocation)}
    {log : List (List CodePoint)} {s u : State} {now : Stamp} {e : Event}
    (h : Follows t o calls log s) (hm : Move now s e u) (hs : Sound s) (only : OnlyThread t e)
    (hoptions : u.options = Direct.settle s.options (carriedOut t s (now, e)))
    (hlines : emits t s (now, e) = Direct.log s.options (carriedOut t s (now, e)))
    (hchecked : Checked u.options (u.callers t)) :
    Follows t o (calls ++ carriedOut t s (now, e)) (log ++ emits t s (now, e)) u := by
  refine ⟨?_, ?_, hchecked, ?_⟩
  · rw [hoptions, h.options, Direct.settle_append]
  · rw [hlines, h.lines, Direct.log_append, h.options]
  · intro q hq
    have he : e.caller? ≠ some q := by
      intro hc
      rcases only_caller only with ht | ⟨outcome, rfl⟩
      · exact hq (Option.some.inj (hc.symm.trans ht))
      · cases hc
    rw [move_offered hm hs q, h.silent q hq, handed, atStep_other he]
    rfl

theorem Follows.quiet {t : Thread} {o : Options} {calls : List (Stamp × Invocation)}
    {log : List (List CodePoint)} {s u : State} {now : Stamp} {e : Event}
    (h : Follows t o calls log s) (hm : Move now s e u) (hs : Sound s) (only : OnlyThread t e)
    (hnone : carriedOut t s (now, e) = [] ∧ emits t s (now, e) = [])
    (hoptions : u.options = s.options) (hchecked : Checked u.options (u.callers t)) :
    Follows t o (calls ++ carriedOut t s (now, e)) (log ++ emits t s (now, e)) u := by
  refine h.kept hm hs only ?_ ?_ hchecked
  · rw [hnone.1]
    exact hoptions
  · rw [hnone.1, hnone.2]
    rfl

theorem Spent.checked {p : Progress} (h : Spent p) (o : Options) : Checked o p := by
  cases p <;> first | exact h.elim | trivial

theorem begin_checked (o : Options) (i : Invocation) : Checked o (begin i) := by
  rcases begin_cases i with ⟨h, hc⟩ | ⟨l, f, a, h, hc⟩
  · rw [h]
    exact fun l f a hl => absurd hl (hc l f a)
  · rw [h]
    exact ⟨f, a, hc⟩

theorem move_follows {t : Thread} {o : Options} {calls : List (Stamp × Invocation)}
    {log : List (List CodePoint)} {s u : State} {now : Stamp} {e : Event}
    (hm : Move now s e u) (hs : Sound s) (only : OnlyThread t e) (h : Follows t o calls log s) :
    Follows t o (calls ++ carriedOut t s (now, e)) (log ++ emits t s (now, e)) u := by
  have hchecked := h.checked
  have hkept := h.kept hm hs only
  have hquiet := h.quiet hm hs only
  cases hm with
  | @start q i other idle =>
    obtain rfl : q = t := only
    exact hquiet ⟨rfl, rfl⟩ rfl (by simpa using begin_checked s.options i)
  | @drop q i l w low =>
    obtain rfl : q = t := only
    rw [w] at hchecked
    obtain ⟨f, a, hc⟩ := hchecked
    refine hkept ?_ ?_ (by simp [Checked])
    · simp [carriedOut, atStep, w, low, Direct.settle, Direct.settings, Direct.assigned, hc]
      rfl
    · simp [carriedOut, emits, atStep, w, low, Direct.log, writes_dropped hc low]
  | @pass q i l w high =>
    obtain rfl : q = t := only
    rw [w] at hchecked
    obtain ⟨f, a, hc⟩ := hchecked
    have hnone : carriedOut q s (now, .caller q) = [] ∧ emits q s (now, .caller q) = [] := by
      simp [carriedOut, emits, atStep, w, high]
    refine hquiet hnone rfl ?_
    simp only [set_callers, update_same, Checked]
    intro l' f' a' hc'
    obtain ⟨rfl, -, -⟩ := Call.leveled.inj (hc.symm.trans hc')
    exact of_decide_eq_true high
  | @compose q i o' p looks w made =>
    obtain rfl : q = t := only
    rw [w] at hchecked
    refine hkept ?_ ?_ (by simp [Checked])
    · simp [carriedOut, atStep, w, Direct.settle, (plan_of_made made).2]
    · simp [carriedOut, emits, atStep, w, Direct.log, writes_checked hchecked]
  | @refuse q i f looks w failed =>
    obtain rfl : q = t := only
    rw [w] at hchecked
    refine hkept ?_ ?_ (by simp [Checked])
    · simp [carriedOut, atStep, w, Direct.settle, (plan_of_refused failed).2]
    · simp [carriedOut, emits, atStep, w, Direct.log, writes_checked hchecked]
  | @finish q ending looks w =>
    obtain rfl : q = t := only
    refine hquiet (nothing_carried (by rw [w]; rfl)) rfl ?_
    simpa using (finish_spent ending looks).checked s.options
  | @flushStream q streams flushed looks w =>
    obtain rfl : q = t := only
    refine hquiet (nothing_carried (by rw [w]; rfl)) rfl ?_
    simpa using (flushNext_spent streams flushed looks).checked s.options
  | @send q wait tasks ending looks w =>
    obtain rfl : q = t := only
    exact hquiet (nothing_carried (by rw [w]; rfl)) rfl hchecked
  | @collect q _ _ w | @handLine q _ _ _ _ w | @handBarrier q _ _ _ w | @sentLine q _ _ _ w
  | @sentBarrier q _ _ _ _ w | @cross q _ _ _ _ w =>
    obtain rfl : q = t := only
    exact hquiet (nothing_carried (by rw [w]; rfl)) rfl (by simp [Checked])
  | ownCall => exact only.elim
  | _ => exact hquiet ⟨rfl, rfl⟩ rfl hchecked

section

variable {t : Thread} {number : Nat} {mode : Mode} {o : Options} {es : List (Stamp × Event)}

theorem run_follows (h : machine.Valid (initial number mode o) es)
    (only : ∀ e ∈ es, OnlyThread t e.2) :
    Follows t o (performed t (initial number mode o) es) (lines t (initial number mode o) es)
      (machine.after (initial number mode o) es) := by
  induction es, h using Machine.run_induction with
  | nil => exact ⟨rfl, rfl, trivial, fun _ _ => rfl⟩
  | snoc es e hes he ih =>
    have hs := reachable_sound (reachable_of_valid hes)
    have hstep := move_follows (machine_move he) hs (only e (by simp))
      (ih fun e' he' => only e' (List.mem_append_left _ he'))
    simpa [performed, lines, Machine.history, Machine.after] using hstep

theorem Follows.deposits {calls : List (Stamp × Invocation)} {log : List (List CodePoint)}
    {s : State}
    (h : Follows t o calls log s) : s.channel.deposited.map Prod.snd = s.channel.deposits t := by
  have hall : ∀ d ∈ s.channel.deposited, d.1 = t := by
    intro d hd
    by_contra hne
    have hmem : d.2 ∈ s.channel.offered d.1 := Handoff.mem_offered hd
    rw [h.silent d.1 hne] at hmem
    cases hmem
  rw [Handoff.State.deposits, List.filter_eq_self.mpr fun d hd => by simpa using hall d hd]

structure Refines (t : Thread) (number : Nat) (mode : Mode) (o : Options)
    (es : List (Stamp × Event)) (s : State) : Prop where
  /-- Of the calls that the thread has begun, all are carried out but one that goes on. -/
  calls : (performed t (initial number mode o) es).map Prod.snd ++ (s.callers t).pending =
    started t es
  /-- The writes are a beginning of those of the direct logger. -/
  attempts : s.attempts <+: Direct.log o (performed t (initial number mode o) es)
  /-- Once the thread has waited, they are all of them, of all its calls. -/
  waited : ∀ looks, s.callers t = .done (.returned (.bool true)) looks →
    s.attempts = Direct.log o (performed t (initial number mode o) es) ∧
      (performed t (initial number mode o) es).map Prod.snd = started t es

theorem attempts_refine_direct (h : machine.Valid (initial number mode o) es)
    (only : ∀ e ∈ es, OnlyThread t e.2) :
    Refines t number mode o es (machine.after (initial number mode o) es) ∧ Direct.Lawful := by
  refine ⟨?_, Direct.lawful⟩
  have hr := reachable_of_valid h
  have hs := reachable_sound hr
  obtain ⟨handled, hd⟩ := reachable_delivered hr
  have hf := run_follows h only
  have hcalls := run_calls h t
  have hissued := run_issued h t
  have hsynced := (run_synced (t := t) (initial_reachable number mode o) rfl h).2
  rw [hf.lines] at hissued
  set s := machine.after (initial number mode o) es
  have hhandled : handled <+: s.channel.deposits t := by
    rw [← hf.deposits]
    exact handled_deposited hs hd
  refine ⟨hcalls, ?_, ?_⟩
  · rw [← hissued, ← hd.lines]
    refine (hhandled.filterMap _).trans ?_
    rw [← ofThread_handedOff]
    exact handedOff_issued s t
  · intro looks waited
    have hfin : Finished (s.callers t) := by rw [waited]; exact .inr trivial
    rw [waited] at hsynced hcalls
    obtain ⟨b, before, -, hoffered, hfresh, hreleased⟩ := hsynced rfl
    -- The barrier that was waited for is the thread's latest parcel, so all of them were handled.
    have hall : handled = s.channel.deposits t := by
      have ho : s.channel.deposits t = before ++ [.barrier b] := by
        rw [← hoffered, Handoff.State.offered, finished_pending hs.coupled hfin, List.append_nil]
      rw [ho] at hhandled ⊢
      rcases List.prefix_concat_iff.mp hhandled with heq | hbefore
      · exact heq
      · exact absurd (hbefore.subset (hd.mem_released.mp hreleased)) hfresh
    constructor
    · rw [← hissued, finished_issued hs.coupled hfin, ofThread_handedOff, ← hall, hd.lines]
    · simpa [Progress.pending] using hcalls

end

/-- A thread whose first write fails, which then raises the threshold, logs below it and above it,
and waits. -/
def monologue : List (Stamp × Event) :=
  let begins (c : Call) : List Event := [.start (.caller 0) ⟨c, [], [], .usual⟩]
  let step (k : Nat) : List Event := List.replicate k (.caller (.caller 0))
  let work (k : Nat) : List Event := List.replicate k (.worker none)
  let ends : List Event := [.collect (.caller 0)]
  let events : List Event :=
    work 3 ++ begins (.leveled .info (.text "a") []) ++ step 7 ++ work 2 ++ step 3 ++ work 1 ++
      [.worker (some (.scripted .system))] ++ work 1 ++ step 1 ++ ends ++
      begins (.setPriority (.priority .warning)) ++ step 2 ++ ends ++
      begins (.leveled .info (.text "b") []) ++ step 1 ++ ends ++
      begins (.printf (.text "c") []) ++ step 6 ++ work 2 ++ step 3 ++ work 3 ++ step 1 ++ ends ++
      begins .sync ++ step 6 ++ work 2 ++ step 3 ++ work 1 ++ step 2
  events.map (⟨2024, 5, 6, 7, 8, 9, 1234⟩, ·)

theorem monologue_refines_direct :
    let s := machine.after (initial 1 .text infoOnly) monologue
    s.attempts = [Text.points "<2>:a\n".toList, Text.points "<2>:c\n".toList] ∧
      Refines (.caller 0) 1 .text infoOnly monologue s ∧
      s.attempts =
        Direct.log infoOnly (performed (.caller 0) (initial 1 .text infoOnly) monologue) := by
  have hm : Refines (.caller 0) 1 .text infoOnly monologue _ ∧ _ :=
    attempts_refine_direct (by decide +kernel) (by decide +kernel)
  exact ⟨by decide +kernel, hm.1, (hm.1.waited 0 (by rfl)).1⟩

end LeveledLog.Logger
