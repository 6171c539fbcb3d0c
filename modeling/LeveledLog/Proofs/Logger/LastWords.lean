import LeveledLog.Proofs.Logger.Departure
import LeveledLog.Proofs.Logger.WriteBarrier

/-!
What is written before a call ends the program. The call hands off its line and its backtrace, then
a barrier, and it comes to the streams only when the worker has released that barrier; by then the
worker has finished with all that was handed off before. The threshold is not asked. How the writes
end is left open, and so is what other threads hand off meanwhile.
-/

namespace LeveledLog.Logger

def settled (number : Nat) (mode : Mode) (o : Options) (es : List (Stamp × Event)) :
    List (Thread × List CodePoint) :=
  (machine.after (initial number mode o) es).handedOff.take
    (results (initial number mode o) es).length

/-- How far a call has come whose tasks are lines and then a barrier, which gets a number from `n`
on. -/
def Closing (n : Nat) (s : State) (t : Thread) : Progress → Prop
  | .handing tasks _ _ =>
    (∃ first : List (List CodePoint), tasks = first.map .line ++ [.barrier]) ∨
      (tasks = [] ∧ Crossed n s t)
  | .sending w tasks _ _ =>
    (w = none ∧ ∃ first : List (List CodePoint), tasks = first.map .line ++ [.barrier]) ∨
      (tasks = [] ∧ ∃ b, w = some b ∧ n ≤ b)
  | .awaiting b tasks _ _ => tasks = [] ∧ n ≤ b
  | .flushing _ _ _ | .done _ _ => Crossed n s t
  | _ => False

def Exits : Progress → Prop
  | .handing _ ending _ | .sending _ _ ending _ | .awaiting _ _ ending _ =>
    ∃ streams, ending = .exit streams
  | .flushing _ _ _ => True
  | .done outcome _ => ∃ status flushed, outcome = .exited status flushed
  | _ => False

/-- What a call that makes a plan at once has issued when `past` has happened since it began. -/
def Spoken (states : List (Stamp × Event) → State) (t : Thread) (i : Invocation)
    (past : List (Stamp × Event)) (base issued : List (List CodePoint)) : Progress → Prop
  | .deciding _ _ => False
  | .composing j => j = i ∧ issued = base
  | _ => ∃ d now rest, past = d ++ (now, .caller t) :: rest ∧ (states d).callers t = .composing i ∧
    issued = base ++ Direct.emitted (states d).options.flags now i

section

variable {n : Nat} {s u : State} {t : Thread} {p q : Progress} {now : Stamp} {e : Event}

theorem Closing.kept (h : Closing n s t p) (hc : Crossed n s t → Crossed n u t) :
    Closing n u t p := by
  cases p with
  | handing tasks ending looks =>
    rcases h with hleft | ⟨hnil, hcrossed⟩
    · exact .inl hleft
    · exact .inr ⟨hnil, hc hcrossed⟩
  | flushing | done => exact hc h
  | _ => exact h

theorem plan_lines (o : Options) (now : Stamp) (frames : Stack) (depth : Nat) (level : Priority)
    (m : List CodePoint) :
    ∃ first : List (List CodePoint), Plan.lineOf o now frames depth level m = first.map .line := by
  unfold Plan.lineOf
  split
  · exact ⟨[], rfl⟩
  · exact ⟨[_], rfl⟩

theorem exit_tasks {o o' : Options} {i : Invocation} {plan : Plan} {looks : Nat}
    (made : (Plan.make o now i).run.run 0 = (.ok (o', plan), looks))
    (exits : ∃ streams, plan.ending = .exit streams) :
    ∃ first : List (List CodePoint), plan.tasks = first.map .line ++ [.barrier] := by
  obtain ⟨streams, hexit⟩ := exits
  have hends := plan_ending made
  rw [hexit] at hends
  cases hc : i.call with
  | fatal format args =>
    have hplan := plan_of_fatal hc o now
    rw [Render.outcome, made] at hplan
    cases hm : (message i.host.room format args).outcome with
    | error f =>
      rw [hm] at hplan
      cases hplan
    | ok m =>
      rw [hm] at hplan
      obtain ⟨-, rfl⟩ := Prod.mk.inj (Except.ok.inj hplan)
      obtain ⟨first, hfirst⟩ := plan_lines o now (.ofMethod "fatal" :: i.stack) 2 .emergency m
      refine ⟨first ++ [Direct.blockOf i.stack 0], ?_⟩
      rw [Plan.lastWords, hfirst, List.map_append, List.append_assoc]
      rfl
  | panic =>
    rw [hc] at hends
    obtain ⟨text, htext⟩ := hends
    cases htext
  | _ =>
    rw [hc] at hends
    cases hends

theorem Advance.closing (ha : Advance now s t e p q) (hp : s.callers t = p) (hn : Numbered s)
    (hle : n ≤ s.barriers) (hkept : handed s t e = [] → Crossed n s t → Crossed n u t)
    (h : Closing n s t p) : q = .idle ∨ Closing n u t q := by
  cases ha with
  | collect => exact .inl rfl
  | start | drop | pass | compose | refuse => exact h.elim
  | @finish ending looks =>
    refine .inr ?_
    rcases h with ⟨first, hfirst⟩ | ⟨-, hcrossed⟩
    · simp at hfirst
    · have hlater := hkept (by simp [handed, atStep, hp]) hcrossed
      cases ending <;> exact hlater
  | handLine =>
    refine .inr ?_
    rcases h with ⟨first, hfirst⟩ | ⟨hnil, -⟩
    · cases first with
      | nil => simp at hfirst
      | cons l first => exact .inl ⟨rfl, first, (List.cons.inj hfirst).2⟩
    · cases hnil
  | handBarrier =>
    refine .inr ?_
    rcases h with ⟨first, hfirst⟩ | ⟨hnil, -⟩
    · cases first with
      | nil => exact .inr ⟨(List.cons.inj hfirst).2, s.barriers, rfl, hle⟩
      | cons l first => simp at hfirst
    · cases hnil
  | send => exact .inr h
  | sentLine =>
    refine .inr ?_
    rcases h with ⟨-, hfirst⟩ | ⟨-, b, hb, -⟩
    · exact .inl hfirst
    · cases hb
  | sentBarrier =>
    refine .inr ?_
    rcases h with ⟨hnone, -⟩ | ⟨hnil, b, hb, hnb⟩
    · cases hnone
    · obtain rfl := Option.some.inj hb
      exact ⟨hnil, hnb⟩
  | @cross b tasks ending looks reached =>
    obtain ⟨hnil, hnb⟩ := h
    obtain ⟨earlier, ho, hb⟩ := hn.waiting t b (by simp [Progress.barrier?, hp])
    have hcrossed : Crossed n s t := ⟨b, earlier, hnb, ho, hb, reached⟩
    exact .inr (.inr ⟨hnil, hkept (by simp [handed, atStep, hp]) hcrossed⟩)
  | @flushStream streams flushed looks =>
    have hcrossed := hkept (by simp [handed, atStep, hp]) h
    have hspent := flushNext_spent streams flushed looks
    cases hf : flushNext streams flushed looks with
    | flushing | done => exact .inr hcrossed
    | _ => rw [hf] at hspent; exact hspent.elim

/-- A call that is to end the program was to do so before, or has just made its plan. -/
theorem Advance.exits (ha : Advance now s t e p q) (h : Exits q) :
    Exits p ∨ ∃ first : List (List CodePoint), ∃ ending looks,
      q = .handing (first.map .line ++ [.barrier]) ending looks := by
  cases ha with
  | @start i =>
    rcases begin_cases i with ⟨hb, -⟩ | ⟨_, _, _, hb, -⟩
    · rw [hb] at h
      exact h.elim
    · rw [hb] at h
      exact h.elim
  | collect | pass => exact h.elim
  | drop | refuse =>
    obtain ⟨status, flushed, hexits⟩ := h
    cases hexits
  | compose made =>
    obtain ⟨first, hfirst⟩ := exit_tasks made h
    exact .inr ⟨first, _, _, by rw [hfirst]⟩
  | @finish ending looks =>
    cases ending with
    | value | fault =>
      obtain ⟨status, flushed, hexits⟩ := h
      cases hexits
    | exit streams => exact .inl ⟨streams, rfl⟩
  | handLine | handBarrier | send | sentLine | sentBarrier | cross => exact .inl h
  | flushStream => exact .inl trivial

theorem move_keeps_closing (hm : Move now s e u) (hs : Sound s) (hn : Numbered s)
    (hle : n ≤ s.barriers) (h : Closing n s t (s.callers t)) :
    u.callers t = .idle ∨ Closing n u t (u.callers t) := by
  by_cases ht : e.caller? = some t
  · exact (move_advance hm ht).closing rfl hn hle (move_keeps_crossed hm hs) h
  · rw [move_callers hm ht]
    exact .inr (h.kept (move_keeps_crossed hm hs (atStep_other ht)))

/-- A call that is to end the program closes with a barrier. -/
theorem move_keeps_guarded (hm : Move now s e u) (hs : Sound s) (hn : Numbered s)
    (hle : n ≤ s.barriers) (h : Exits (s.callers t) → Closing n s t (s.callers t))
    (exits : Exits (u.callers t)) : Closing n u t (u.callers t) := by
  have hlater : Exits (s.callers t) → Closing n u t (u.callers t) := by
    intro hexits
    rcases move_keeps_closing hm hs hn hle (h hexits) with idle | hclosing
    · rw [idle] at exits
      exact exits.elim
    · exact hclosing
  by_cases ht : e.caller? = some t
  · rcases (move_advance hm ht).exits exits with hexits | ⟨first, ending, looks, hq⟩
    · exact hlater hexits
    · rw [hq]
      exact .inl ⟨first, rfl⟩
  · rw [move_callers hm ht] at exits
    exact hlater exits

theorem run_guarded {es : List (Stamp × Event)} (hr : Reachable s) (idle : s.callers t = .idle)
    (h : machine.Valid s es) :
    s.barriers ≤ (machine.after s es).barriers ∧
      (Exits ((machine.after s es).callers t) →
        Closing s.barriers (machine.after s es) t ((machine.after s es).callers t)) := by
  induction es, h using Machine.run_induction with
  | nil =>
    refine ⟨Nat.le_refl _, fun exits => ?_⟩
    change Exits (s.callers t) at exits
    rw [idle] at exits
    exact exits.elim
  | snoc es e hes he ih =>
    obtain ⟨hle, hguarded⟩ := ih
    have hm := machine_move he
    have hmid := hr.run hes
    rw [Machine.after_append]
    exact ⟨Nat.le_trans hle (move_barriers hm),
      move_keeps_guarded hm (reachable_sound hmid) (reachable_numbered hmid) hle hguarded⟩

end

section

variable {states : List (Stamp × Event) → State} {t : Thread} {i : Invocation}
  {past : List (Stamp × Event)} {base issued : List (List CodePoint)} {p q : Progress}

theorem Spoken.later (h : Spoken states t i past base issued p) (e : Stamp × Event) :
    Spoken states t i (past ++ [e]) base issued p := by
  cases p with
  | deciding => exact h
  | composing => exact h
  | _ =>
    obtain ⟨d, now, rest, rfl, hcomposing, hissued⟩ := h
    exact ⟨d, now, rest ++ [e], by simp, hcomposing, hissued⟩

theorem Advance.spoken {now : Stamp} {e : Event} (ha : Advance now (states past) t e p q)
    (hp : (states past).callers t = p) (he : begun t e = [])
    (h : Spoken states t i past base issued p) :
    Spoken states t i (past ++ [(now, e)]) base (issued ++ emits t (states past) (now, e)) q := by
  have hsame : p.pending = [] → Spoken states t i (past ++ [(now, e)]) base
      (issued ++ emits t (states past) (now, e)) p := by
    intro hpending
    rw [(nothing_carried (hp ▸ hpending)).2, List.append_nil]
    exact h.later _
  cases ha with
  | start => simp [begun] at he
  | drop | pass => exact h.elim
  | compose | refuse =>
    obtain ⟨rfl, rfl⟩ := h
    exact ⟨past, now, [], rfl, hp, by simp [emits, atStep, hp]⟩
  | @finish ending looks =>
    have hspoken := hsame rfl
    cases ending <;> exact hspoken
  | @flushStream streams flushed looks =>
    have hspoken := hsame rfl
    have hspent := flushNext_spent streams flushed looks
    cases hf : flushNext streams flushed looks with
    | flushing | done => exact hspoken
    | _ => rw [hf] at hspent; exact hspent.elim
  | collect | handLine | handBarrier | send | sentLine | sentBarrier | cross => exact hsame rfl

theorem move_spoken {now : Stamp} {u : State} {e : Event} (hm : Move now (states past) e u)
    (hs : Sound (states past)) (he : begun t e = [])
    (h : Spoken states t i past base ((states past).issued t) ((states past).callers t)) :
    Spoken states t i (past ++ [(now, e)]) base (u.issued t) (u.callers t) := by
  rw [move_issued hm hs t]
  by_cases ht : e.caller? = some t
  · exact (move_advance hm ht).spoken rfl he h
  · rw [move_callers hm ht, emits, atStep_other ht, List.append_nil]
    exact h.later _

theorem emitted_fatal {f : Flags} {now : Stamp} {format : Value} {args : List Value}
    {m : List CodePoint} (fatal : i.call = .fatal format args)
    (rendered : (message i.host.room format args).outcome = .ok m) :
    Direct.emitted f now i =
      Direct.lineOf f now i.stack .emergency true m ++ [Direct.blockOf i.stack 0] := by
  simp only [Direct.emitted, Direct.emission, fatal, Render.outcome_map, rendered]
  rfl

end

section

variable {number : Nat} {mode : Mode} {o : Options} {es before during : List (Stamp × Event)}
  {n : Stamp} {t : Thread} {i : Invocation} {format : Value} {args : List Value}

theorem spent_outside {p : Progress} (h : Spent p) : ¬InSend p := by
  cases p <;> first | exact h.elim | exact id

theorem spent_issued {s : State} (h : Coupled s) (hp : Spent (s.callers t)) :
    s.issued t = ofThread t s.handedOff := by
  have hpending := Handoff.Phase.pending_of_not_sends (mt (sends_iff h t).mp (spent_outside hp))
  rw [State.issued, hp.linesLeft_eq, List.append_nil, Handoff.State.offered, hpending,
    List.append_nil, ofThread_handedOff]

theorem closes_flushing {s : State} {e : Stamp × Event} (h : closes t s e ≠ []) :
    ∃ streams flushed looks, s.callers t = .flushing streams flushed looks := by
  obtain ⟨now, e⟩ := e
  cases e with
  | caller q =>
    by_cases hq : q = t
    · subst q
      cases hp : s.callers t with
      | flushing streams flushed looks => exact ⟨streams, flushed, looks, rfl⟩
      | _ => simp [closes, atStep, hp] at h
    · simp [closes, atStep, hq] at h
  | _ => exact absurd rfl h

theorem settled_lines (h : machine.Valid (initial number mode o) es) :
    (settled number mode o es).map Prod.snd =
      (results (initial number mode o) es).map Prod.fst := by
  obtain ⟨gone, hprefix, hlines, -⟩ := run_settled h
  have hresults := hprefix.filterMap Parcel.line?
  rw [← handedOff_lines, hlines] at hresults
  rw [settled, List.map_take]
  have htake := List.prefix_iff_eq_take.mp hresults
  rw [List.length_map] at htake
  exact htake.symm

theorem taken_parcels {l : List (Thread × Parcel)} {gone : List Parcel}
    (h : gone <+: l.map Prod.snd) : (l.take gone.length).map Prod.snd = gone := by
  rw [List.map_take]
  exact (List.prefix_iff_eq_take.mp h).symm

theorem taken_lines {gone : List Parcel}
    (hgone : gone <+: (machine.after (initial number mode o) es).channel.deposited.map Prod.snd)
    (hlines : gone.filterMap Parcel.line? = (results (initial number mode o) es).map Prod.fst) :
    ((machine.after (initial number mode o) es).channel.deposited.take gone.length).filterMap
      (fun d => d.2.line?.map (d.1, ·)) = settled number mode o es := by
  set taken := (machine.after (initial number mode o) es).channel.deposited.take gone.length
  have hpre : taken.filterMap (fun d => d.2.line?.map (d.1, ·)) <+:
      (machine.after (initial number mode o) es).handedOff :=
    (List.take_prefix _ _).filterMap _
  have hlength : (taken.filterMap fun d => d.2.line?.map (d.1, ·)).length =
      (results (initial number mode o) es).length := by
    have hmap := congrArg List.length (map_snd_lines taken)
    rw [taken_parcels hgone, hlines] at hmap
    simpa using hmap
  rw [List.prefix_iff_eq_take.mp hpre, hlength]
  rfl

/-- The worker is done with all parcels of a thread that has crossed its latest barrier. -/
theorem crossed_taken {s : State} {k : Nat} {gone : List Parcel} (hr : Reachable s)
    (outside : ¬InSend (s.callers t)) (crossed : Crossed k s t)
    (hgone : gone <+: s.channel.deposited.map Prod.snd)
    (hreleased : ∀ b ∈ s.released, .barrier b ∈ gone) :
    ofThread t (s.channel.deposited.take gone.length) = s.channel.deposits t := by
  obtain ⟨b, earlier, -, hoffered, hfresh, hb⟩ := crossed
  have hdeposits : s.channel.deposits t = earlier ++ [.barrier b] := by
    have hpending := Handoff.Phase.pending_of_not_sends
      (mt (sends_iff (reachable_sound hr).coupled t).mp outside)
    rw [← hoffered, Handoff.State.offered, hpending, List.append_nil]
  have hmine : .barrier b ∈ ofThread t (s.channel.deposited.take gone.length) := by
    have hmem := hreleased b hb
    rw [← taken_parcels hgone, List.mem_map] at hmem
    obtain ⟨⟨q, x⟩, hin, rfl⟩ := hmem
    have hq := (own_released hr (t := t) (b := b) (by rw [hoffered]; simp)).2 q
      (List.mem_of_mem_take hin)
    subst q
    exact List.mem_map.mpr ⟨_, List.mem_filter.mpr ⟨hin, by simp⟩, rfl⟩
  have hpre : ofThread t (s.channel.deposited.take gone.length) <+: s.channel.deposits t :=
    ofThread_mono (List.take_prefix _ _) t
  rw [hdeposits] at hpre ⊢
  rcases List.prefix_concat_iff.mp hpre with heq | hbefore
  · exact heq
  · exact absurd (hbefore.subset hmine) hfresh

/-- When a thread has crossed its latest barrier, the worker has finished with all that was handed
off before it, and with all that the thread has handed off itself. -/
theorem crossed_settled {rest : List (Stamp × Event)} {k : Nat}
    (h : machine.Valid (initial number mode o) (es ++ rest))
    (hk : (machine.after (initial number mode o) es).barriers ≤ k)
    (outside : ¬InSend ((machine.after (initial number mode o) (es ++ rest)).callers t))
    (crossed : Crossed k (machine.after (initial number mode o) (es ++ rest)) t) :
    (machine.after (initial number mode o) es).handedOff <+: settled number mode o (es ++ rest) ∧
      ofThread t (settled number mode o (es ++ rest)) =
        ofThread t (machine.after (initial number mode o) (es ++ rest)).handedOff := by
  obtain ⟨hes, hrest⟩ := (machine.valid_append _ _ _).mp h
  have hr := reachable_of_valid h
  have hrb := reachable_of_valid hes
  obtain ⟨gone, hprefix, hlines, hreleased⟩ := run_settled h
  have htaken := taken_lines hprefix hlines
  constructor
  · rw [← htaken]
    rw [Machine.after_append] at crossed hprefix hreleased ⊢
    have hcover := fresh_covered hrb hrest (crossed.fresh hrb hk) hprefix hreleased
    have hshort :
      (machine.after (initial number mode o) es).channel.deposited.length ≤ gone.length := by
      simpa using hcover.length_le
    exact (List.prefix_take_iff.mpr ⟨run_deposited hrb hrest, hshort⟩).filterMap _
  · rw [← htaken, ofThread_handedOff, ← crossed_taken hr outside crossed hprefix hreleased,
      ofThread_lines]

/-- A call that is not decided about first issues its lines at the one step that makes its plan. -/
theorem run_uttered
    (h : machine.Valid (initial number mode o) (before ++ (n, .start t i) :: during))
    (atOnce : begin i = .composing i) (quiet : started t during = []) :
    let states d := machine.after (initial number mode o) (before ++ (n, .start t i) :: d)
    Spoken states t i during ((machine.after (initial number mode o) before).issued t)
      ((states during).issued t) ((states during).callers t) := by
  intro states
  refine call_induction h quiet (P := fun past s => Spoken states t i past
    ((machine.after (initial number mode o) before).issued t) (s.issued t) (s.callers t)) ?_ ?_
  · obtain ⟨hbefore, hstart, -⟩ := (machine.valid_append _ _ _).mp h
    have hissued :=
      move_issued (machine_move hstart) (reachable_sound (reachable_of_valid hbefore)) t
    have hcallers :
      (machine.next (machine.after (initial number mode o) before) (n, .start t i)).callers
        t = begin i := update_same _ _ _
    rw [hcallers, atOnce, hissued]
    exact ⟨rfl, List.append_nil _⟩
  · intro past e s hr hm hbegun hspoken
    exact move_spoken hm (reachable_sound hr) hbegun hspoken

theorem run_spoken (h : machine.Valid (initial number mode o) (before ++ (n, .start t i) :: during))
    (fatal : i.call = .fatal format args) (quiet : started t during = []) :
    let states d := machine.after (initial number mode o) (before ++ (n, .start t i) :: d)
    Spoken states t i during ((machine.after (initial number mode o) before).issued t)
      ((states during).issued t) ((states during).callers t) :=
  run_uttered h (by rw [begin, fatal]) quiet

theorem closes_settled {d rest : List (Stamp × Event)} {e : Stamp × Event}
    (h : machine.Valid (initial number mode o) (before ++ (n, .start t i) :: (d ++ e :: rest)))
    (quiet : started t (d ++ e :: rest) = [])
    (hcloses : closes t (machine.after (initial number mode o) (before ++ (n, .start t i) :: d)) e ≠
      []) :
    let past := before ++ (n, .start t i) :: d
    (settled number mode o past).map Prod.snd =
      (results (initial number mode o) past).map Prod.fst ∧
      (machine.after (initial number mode o) before).handedOff <+: settled number mode o past ∧
      ofThread t (settled number mode o past) = (machine.after (initial number mode o)
        (before ++ (n, .start t i) :: (d ++ e :: rest))).issued t := by
  intro past
  have hsplit : before ++ (n, .start t i) :: (d ++ e :: rest) = past ++ e :: rest := by
    simp [past]
  rw [hsplit] at h ⊢
  obtain ⟨hpast, hrest⟩ := (machine.valid_append _ _ _).mp h
  obtain ⟨hbefore, hstart⟩ := (machine.valid_append _ _ _).mp hpast
  have hr := reachable_of_valid hpast
  obtain ⟨streams, names, looks, hflushing⟩ := closes_flushing hcloses
  have hspent : Spent ((machine.after (initial number mode o) past).callers t) := by
    rw [hflushing]
    trivial
  have hcrossed := (run_guarded (reachable_of_valid hbefore) (isIdle_iff.mp hstart.1.2) hstart).2
  rw [← Machine.after_append, hflushing] at hcrossed
  obtain ⟨hcovered, hown⟩ :=
    crossed_settled hpast (Nat.le_refl _) (spent_outside hspent) (hcrossed trivial)
  have hquiet : started t (e :: rest) = [] := by
    rw [started, List.flatMap_append, List.append_eq_nil_iff] at quiet
    exact quiet.2
  have hsilent := (run_silent hr hrest hspent.pending_eq hquiet).1
  rw [← Machine.after_append, spent_issued (reachable_sound hr).coupled hspent] at hsilent
  exact ⟨settled_lines hpast, hcovered, hown.trans hsilent.symm⟩

/-- What a call has done by the time that it has ended the program. -/
structure LastWords (number : Nat) (mode : Mode) (o : Options) (before : List (Stamp × Event))
    (n : Stamp) (t : Thread) (i : Invocation) (r : Render (List CodePoint))
    (during : List (Stamp × Event)) (status : Nat) : Prop where
  status : status = 1
  /-- What the thread has handed off since the call began are its line, if there is a message, and a
  backtrace that begins where the call was made. -/
  words : ∃ d now rest m shown,
    let mid := machine.after (initial number mode o) (before ++ (n, .start t i) :: d)
    during = d ++ (now, .caller t) :: rest ∧ mid.callers t = .composing i ∧ r.outcome = .ok m ∧
      shown <+: i.stack ∧ shown.length = min 64 i.stack.length ∧
      ofThread t (machine.after (initial number mode o)
          (before ++ (n, .start t i) :: during)).handedOff =
        ofThread t (machine.after (initial number mode o) before).handedOff ++
          (Direct.lineOf mid.options.flags now i.stack .emergency true m ++
            [Text.points (Backtrace.block shown)])
  /-- It has come to the streams one after the other, and then to the end of the program. -/
  order : closings t (machine.after (initial number mode o) (before ++ [(n, .start t i)])) during =
    i.streams.map some ++ [none]
  /-- By the first of these, the worker had finished with all that was handed off before the call
  began, and with all that the thread itself ever handed off. -/
  written : ∀ d e rest,
    let past := before ++ (n, .start t i) :: d
    during = d ++ e :: rest → closes t (machine.after (initial number mode o) past) e ≠ [] →
      (settled number mode o past).map Prod.snd =
        (results (initial number mode o) past).map Prod.fst ∧
        (machine.after (initial number mode o) before).handedOff <+: settled number mode o past ∧
        ofThread t (settled number mode o past) = ofThread t (machine.after (initial number mode o)
          (before ++ (n, .start t i) :: during)).handedOff

theorem fatal_writes_before_end {status : Nat} {flushed : List String} {looks : Nat}
    (h : machine.Valid (initial number mode o) (before ++ (n, .start t i) :: during))
    (fatal : i.call = .fatal format args) (quiet : started t during = [])
    (ended : (machine.after (initial number mode o)
      (before ++ (n, .start t i) :: during)).callers t =
      .done (.exited status flushed) looks) :
    LastWords number mode o before n t i (message i.host.room format args) during status := by
  obtain ⟨hbefore, hstart⟩ := (machine.valid_append _ _ _).mp h
  have hidle : (machine.after (initial number mode o) before).callers t = .idle :=
    isIdle_iff.mp hstart.1.2
  have hmid := reachable_of_valid hbefore
  have hfinal := reachable_sound (reachable_of_valid h)
  have hfinished : Finished ((machine.after (initial number mode o)
      (before ++ (n, .start t i) :: during)).callers t) := by
    rw [ended]
    exact .inr trivial
  have hissued := finished_issued hfinal.coupled hfinished
  have hdeparts := run_departs h fatal quiet
  have hspoken := run_spoken h fatal quiet
  dsimp only at hspoken
  rw [ended] at hdeparts hspoken
  obtain ⟨houtcome, hclosings⟩ := hdeparts
  have hunhindered : Unhindered i (message i.host.room format args) ∧ status = exitStatus := by
    rcases parting_cases i (message i.host.room format args) with ⟨hfree, names, hexits⟩ |
      ⟨-, f, hraised⟩
    · rw [hexits] at houtcome
      exact ⟨hfree, (Outcome.exited.inj houtcome).1⟩
    · rw [hraised] at houtcome
      cases houtcome
  obtain ⟨⟨⟨m, hm⟩, -⟩, hstatus⟩ := hunhindered
  constructor
  · exact hstatus
  · obtain ⟨d, now, rest, hsplit, hcomposing, hlines⟩ := hspoken
    refine ⟨d, now, rest, m, i.stack.take 64, hsplit, hcomposing, hm, List.take_prefix _ _,
      List.length_take, ?_⟩
    rw [← hissued,
      ← finished_issued (reachable_sound hmid).coupled (by rw [hidle]; exact .inl trivial),
      hlines, emitted_fatal fatal hm]
    rfl
  · exact hclosings status flushed rfl
  · rintro d e rest past rfl hcloses
    obtain ⟨hlines, hcovered, hown⟩ := closes_settled h quiet hcloses
    exact ⟨hlines, hcovered, hown.trans hissued⟩

end

def overture : List (Stamp × Event) :=
  let step (k : Nat) : List Event := List.replicate k (.caller (.caller 1))
  let work (k : Nat) : List Event := List.replicate k (.worker none)
  let logs : List Event := [.start (.caller 1) ⟨.leveled .info (.text "a") [], [], [], .usual⟩]
  (work 3 ++ logs ++ step 7 ++ work 2 ++ step 3 ++ work 1).map (⟨2024, 5, 6, 7, 8, 9, 1234⟩, ·)

/-- The write of the other thread's line fails, and a third thread gets a line in between. -/
def finale : List (Stamp × Event) :=
  let step (n k : Nat) : List Event := List.replicate k (.caller (.caller n))
  let work (k : Nat) : List Event := List.replicate k (.worker none)
  let logs : List Event := [.start (.caller 2) ⟨.leveled .info (.text "b") [], [], [], .usual⟩]
  let events : List Event :=
    step 0 6 ++ logs ++ step 2 3 ++ [.worker (some (.scripted .system))] ++ work 3 ++ step 0 3 ++
      step 2 4 ++ step 0 1 ++ work 5 ++ step 2 4 ++ step 0 4 ++ work 5 ++ step 0 8 ++ work 5 ++
      step 0 3 ++ work 1 ++ step 0 5
  events.map (⟨2024, 5, 6, 7, 8, 9, 1234⟩, ·)

theorem finale_writes_before_end :
    let now : Stamp := ⟨2024, 5, 6, 7, 8, 10, 0⟩
    let i : Invocation := ⟨.fatal (.text "bye") [], [⟨"/d/x", some 7, some "m", "f"⟩],
      standardStreams (.failing .system) .absent, .usual⟩
    settled 1 .bytes infoOnly (overture ++ (now, .start (.caller 0) i) :: finale) =
        [(.caller 1, Text.points "<2>:a\n".toList), (.caller 0, Text.points "<6>:bye\n".toList),
          (.caller 2, Text.points "<2>:b\n".toList),
          (.caller 0, Text.points "Backtrace:\n    /d/x:7 [m.f]\n    \n".toList)] ∧
      LastWords 1 .bytes infoOnly overture now (.caller 0) i
        (message i.host.room (.text "bye") []) finale 1 := by
  intro now i
  have h : machine.Valid (initial 1 .bytes infoOnly)
      (overture ++ (now, .start (.caller 0) i) :: finale) := by
    decide +kernel
  have hquiet : started (.caller 0) finale = [] := by decide +kernel
  obtain ⟨looks, hended⟩ := run_parting h rfl hquiet (by decide +kernel)
  exact ⟨by decide +kernel, fatal_writes_before_end h rfl hquiet hended⟩

end LeveledLog.Logger
