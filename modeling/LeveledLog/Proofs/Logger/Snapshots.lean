import LeveledLog.Proofs.Logger.Refinement
import LeveledLog.Proofs.Logger.Outcomes

/-!
Which options a line was made under, when others assign options at any time. A call reads the
options at two of its steps: the threshold when it is decided whether it goes on, and the flags when
its line is composed. Each value is one that the logger held at that moment, and all of a line comes
from the one value of the flags. What the options are when the line is written makes no difference.
-/

namespace LeveledLog

namespace Call

def speech? (room : Room) : Call → Option (Priority × Bool × Render (List CodePoint))
  | .leveled l format args => some (l.priority, l.tellsSite, message room format args)
  | .printf format args => some (.info, false, message room format args)
  | .print values => some (.info, false, Text.points <$> Plan.spaced values)
  | .panic format args => some (.emergency, true, message room format args)
  | .fatal format args => some (.emergency, true, message room format args)
  | _ => none

def Traces : Call → Prop
  | .backtrace _ => True
  | .panic _ _ => True
  | .fatal _ _ => True
  | _ => False

end Call

/-- A line of a call under given flags. The same flags decide whether the place of the call is
looked up and what the header shows; a backtrace depends on none. -/
inductive Worded (f : Flags) (now : Stamp) (i : Invocation) : List CodePoint → Prop where
  | spoken {p tells r m} (speaks : i.call.speech? i.host.room = some (p, tells, r))
      (rendered : Render.outcome r = .ok m) (nonempty : m ≠ []) :
      Worded f now i (Line.format p.rank f m (Direct.siteOf f i.stack tells) now)
  | output {depth priority v site l} (speaks : i.call = .output depth priority v)
      (located : (Direct.locate f i.stack depth).outcome = .ok site)
      (rendered : (Line.ofValues priority f v site now).outcome = .ok l) : Worded f now i l
  | trace {k depth} (traces : i.call.Traces) :
      Worded f now i (Direct.blockOf (i.stack.drop k) depth)

namespace Direct

section

variable {f : Flags} {now : Stamp} {i : Invocation} {l : List CodePoint}

theorem lineOf_worded {p : Priority} {tells : Bool} {r : Render (List CodePoint)}
    {m : List CodePoint} (speaks : i.call.speech? i.host.room = some (p, tells, r))
    (rendered : r.outcome = .ok m) (h : l ∈ lineOf f now i.stack p tells m) : Worded f now i l := by
  unfold lineOf at h
  split at h
  · cases h
  · rename_i nonempty
    obtain rfl := List.mem_singleton.mp h
    exact .spoken speaks rendered nonempty

theorem mem_linesOf_map {α : Type} {r : Render α} {g : α → List (List CodePoint)}
    (h : l ∈ linesOf (Render.outcome (do let a ← r; pure (g a)))) :
    ∃ a, r.outcome = .ok a ∧ l ∈ g a := by
  rw [Render.outcome_map] at h
  cases hr : r.outcome with
  | error fault =>
    rw [hr] at h
    cases h
  | ok a =>
    rw [hr] at h
    exact ⟨a, rfl, h⟩

theorem locate_pure (f : Flags) (stack : Stack) (depth : Value) :
    (∃ site, locate f stack depth = pure site) ∨ ∃ fault, locate f stack depth = throw fault := by
  unfold locate
  split
  · exact .inr ⟨_, rfl⟩
  · split
    · split
      · exact .inl ⟨_, rfl⟩
      · exact .inr ⟨_, rfl⟩
    · exact .inl ⟨_, rfl⟩
  · exact .inl ⟨_, rfl⟩

theorem output_worded {depth priority v : Value} (speaks : i.call = .output depth priority v)
    (h : l ∈ linesOf (Render.outcome (do
      let site ← locate f i.stack depth
      let line ← Line.ofValues priority f v site now
      pure [line]))) : Worded f now i l := by
  rcases locate_pure f i.stack depth with ⟨site, hsite⟩ | ⟨fault, hfault⟩
  · rw [hsite, pure_bind] at h
    obtain ⟨line, rendered, hl⟩ := mem_linesOf_map h
    obtain rfl := List.mem_singleton.mp hl
    exact .output speaks (by rw [hsite]; rfl) rendered
  · rw [hfault] at h
    cases h

theorem emitted_worded (h : l ∈ emitted f now i) : Worded f now i l := by
  unfold emitted emission at h
  cases hc : i.call with
  | leveled | printf =>
    simp only [hc] at h
    obtain ⟨m, rendered, hl⟩ := mem_linesOf_map h
    exact lineOf_worded (by rw [hc]; rfl) rendered hl
  | print values =>
    simp only [hc] at h
    obtain ⟨m, rendered, hl⟩ := mem_linesOf_map h
    have points : (Text.points <$> Plan.spaced values).outcome = .ok (Text.points m) := by
      rw [← bind_pure_comp, Render.outcome_map, rendered]
      rfl
    exact lineOf_worded (by rw [hc]; rfl) points hl
  | panic | fatal =>
    simp only [hc] at h
    obtain ⟨m, rendered, hl⟩ := mem_linesOf_map h
    rcases List.mem_append.mp hl with hl | hl
    · exact lineOf_worded (by rw [hc]; rfl) rendered hl
    · obtain rfl := List.mem_singleton.mp hl
      exact .trace (k := 0) (by rw [hc]; trivial)
  | output depth priority v =>
    simp only [hc] at h
    split at h
    · exact output_worded hc h
    · cases h
  | backtrace depth =>
    simp only [hc] at h
    obtain ⟨d, _, hl⟩ := mem_linesOf_map h
    obtain rfl := List.mem_singleton.mp hl
    exact .trace (by rw [hc]; trivial)
  | sync | setPriority | setFlags | setPrefix =>
    simp only [hc] at h
    cases h

end

end Direct

namespace Logger

section

variable {number : Nat} {mode : Mode} {o : Options} {t : Thread} {i : Invocation}
  {es : List (Stamp × Event)}

/-- The `k`-th line of a thread comes from the call that the thread had going on after `before`,
and from the flags that the logger held then; it had not been handed off yet. -/
structure ComposedAt (number : Nat) (mode : Mode) (o : Options) (before : List (Stamp × Event))
    (now : Stamp) (t : Thread) (i : Invocation) (k : Nat) (l : List CodePoint) : Prop where
  calling : latest t before = some i
  composing : (machine.after (initial number mode o) before).callers t = .composing i
  ahead : (ofThread t (machine.after (initial number mode o) before).handedOff).length ≤ k
  line : ∃ j, k = (lines t (initial number mode o) before).length + j ∧
    (Direct.emitted (machine.after (initial number mode o) before).options.flags now i)[j]? = some l
  worded : Worded (machine.after (initial number mode o) before).options.flags now i l

theorem emits_composing {s : State} {now : Stamp} {e : Event} {l : List CodePoint}
    (h : l ∈ emits t s (now, e)) : e = .caller t ∧ ∃ i, s.callers t = .composing i ∧
      emits t s (now, e) = Direct.emitted s.options.flags now i := by
  cases e with
  | caller q =>
    by_cases hq : q = t
    · subst q
      cases hp : s.callers t with
      | composing i => exact ⟨rfl, i, rfl, by simp [emits, atStep, hp]⟩
      | _ => simp [emits, atStep, hp] at h
    · simp [emits, atStep, hq] at h
  | _ => cases h

theorem composed_lines (h : machine.Valid (initial number mode o) es) {k : Nat} {l : List CodePoint}
    (hl : (ofThread t (machine.after (initial number mode o) es).handedOff)[k]? = some l) :
    ∃ before now rest i, es = before ++ (now, .caller t) :: rest ∧
      ComposedAt number mode o before now t i k l := by
  have hissued := handedOff_issued (machine.after (initial number mode o) es) t
  rw [run_issued h t] at hissued
  have hline : (lines t (initial number mode o) es)[k]? = some l := by
    obtain ⟨more, hmore⟩ := hissued
    rw [← hmore, List.getElem?_append_left (List.getElem?_eq_some_iff.mp hl).1]
    exact hl
  obtain ⟨before, ⟨now, e⟩, rest, j, rfl, hk, hj⟩ := machine.history_getElem hline
  obtain ⟨rfl, i, hp, hemits⟩ := emits_composing (List.mem_of_getElem? hj)
  obtain ⟨hbefore, -⟩ := (machine.valid_append _ _ _).mp h
  rw [hemits] at hj
  refine ⟨before, now, rest, i, rfl, ?_, hp, ?_, ⟨j, hk, hj⟩, ?_⟩
  · rcases run_serves hbefore t with idle | ⟨i', hlatest, hserves⟩
    · rw [hp] at idle
      cases idle
    · rw [hp] at hserves
      obtain rfl := hserves
      exact hlatest
  · have hlength := (handedOff_issued (machine.after (initial number mode o) before) t).length_le
    rw [run_issued hbefore t] at hlength
    have hlines : k = (lines t (initial number mode o) before).length + j := hk
    omega
  · exact Direct.emitted_worded (List.mem_of_getElem? hj)

end

section

inductive Fate (states : List (Stamp × Event) → State) (t : Thread) (i : Invocation)
    (past : List (Stamp × Event)) (base issued : List (List CodePoint)) : Prop where
  /-- At one moment its level was below the threshold, and nothing came of it. -/
  | dropped {l format args d now rest} (call : i.call = .leveled l format args)
      (decided : past = d ++ (now, .caller t) :: rest)
      (deciding : (states d).callers t = .deciding i l)
      (low : ¬(states d).options.threshold ≤ l.priority) (nothing : issued = base)
  /-- At one moment its level reached the threshold, and at a later one its line was composed. -/
  | composed {l format args d now d' now' rest} (call : i.call = .leveled l format args)
      (decided : past = (d ++ (now, .caller t) :: d') ++ (now', .caller t) :: rest)
      (deciding : (states d).callers t = .deciding i l)
      (high : (states d).options.threshold ≤ l.priority)
      (composing : (states (d ++ (now, .caller t) :: d')).callers t = .composing i)
      (line : issued = base ++ Direct.linesOf ((message i.host.room format args).outcome.map
        (Direct.lineOf (states (d ++ (now, .caller t) :: d')).options.flags now' i.stack l.priority
          l.tellsSite)))

def Fares (states : List (Stamp × Event) → State) (t : Thread) (i : Invocation)
    (past : List (Stamp × Event)) (base issued : List (List CodePoint)) : Progress → Prop
  | .deciding j l => j = i ∧ issued = base ∧ ∃ format args, i.call = .leveled l format args
  | .composing j => j = i ∧ issued = base ∧
    ∃ l format args d now rest, i.call = .leveled l format args ∧
      past = d ++ (now, .caller t) :: rest ∧ (states d).callers t = .deciding i l ∧
      (states d).options.threshold ≤ l.priority
  | _ => Fate states t i past base issued

variable {states : List (Stamp × Event) → State} {t : Thread} {i : Invocation}
  {past : List (Stamp × Event)} {base issued : List (List CodePoint)} {p q : Progress}

theorem fares_of_pending (hp : p.pending = []) :
    Fares states t i past base issued p ↔ Fate states t i past base issued := by
  cases p with
  | deciding | composing => cases hp
  | _ => exact Iff.rfl

theorem Fate.later (h : Fate states t i past base issued) (e : Stamp × Event) :
    Fate states t i (past ++ [e]) base issued := by
  cases h with
  | @dropped l format args d now rest call decided deciding low nothing =>
    have hpast : past ++ [e] = d ++ (now, .caller t) :: (rest ++ [e]) := by
      rw [decided, List.append_assoc, List.cons_append]
    exact .dropped call hpast deciding low nothing
  | @composed l format args d now d' now' rest call decided deciding high composing line =>
    have hpast : past ++ [e] =
        (d ++ (now, .caller t) :: d') ++ (now', .caller t) :: (rest ++ [e]) := by
      rw [decided, List.append_assoc, List.cons_append]
    exact .composed call hpast deciding high composing line

theorem Fares.later (h : Fares states t i past base issued p) (e : Stamp × Event) :
    Fares states t i (past ++ [e]) base issued p := by
  cases p with
  | deciding j l => exact h
  | composing j =>
    obtain ⟨hj, hissued, l, format, args, d, now, rest, hc, hd, hdeciding, high⟩ := h
    refine ⟨hj, hissued, l, format, args, d, now, rest ++ [e], hc, ?_, hdeciding, high⟩
    rw [hd, List.append_assoc, List.cons_append]
  | _ => exact Fate.later h e

theorem emitted_leveled {f : Flags} {now : Stamp} {l : Level} {format : Value} {args : List Value}
    (call : i.call = .leveled l format args) :
    Direct.emitted f now i = Direct.linesOf ((message i.host.room format args).outcome.map
      (Direct.lineOf f now i.stack l.priority l.tellsSite)) := by
  simp only [Direct.emitted, Direct.emission, call, Render.outcome_map]

/-- With a step of its own, a call reads the threshold, or the flags, or neither. -/
theorem Advance.fares {now : Stamp} {e : Event} (ha : Advance now (states past) t e p q)
    (hp : (states past).callers t = p) (he : begun t e = [])
    (h : Fares states t i past base issued p) :
    Fares states t i (past ++ [(now, e)]) base (issued ++ emits t (states past) (now, e)) q := by
  have hquiet : p.pending = [] → q.pending = [] →
      Fares states t i (past ++ [(now, e)]) base
        (issued ++ emits t (states past) (now, e)) q := by
    intro hp' hq'
    have hfate := (fares_of_pending hp').mp h
    rw [(nothing_carried (hp ▸ hp')).2, List.append_nil]
    exact (fares_of_pending hq').mpr (hfate.later _)
  cases ha with
  | start => simp [begun] at he
  | @drop j l low =>
    obtain ⟨rfl, rfl, format, args, hc⟩ := h
    refine Fate.dropped hc rfl hp (of_decide_eq_false low) ?_
    simp [emits, atStep, hp]
  | @pass j l high =>
    obtain ⟨rfl, rfl, format, args, hc⟩ := h
    refine ⟨rfl, by simp [emits, atStep, hp], l, format, args, past, now, [], hc, rfl, hp, ?_⟩
    exact of_decide_eq_true high
  | compose | refuse =>
    obtain ⟨rfl, rfl, l, format, args, d, now', rest, hc, rfl, hdeciding, high⟩ := h
    refine Fate.composed hc rfl hdeciding high hp ?_
    rw [← emitted_leveled hc]
    simp [emits, atStep, hp]
  | collect | handLine | handBarrier | send | sentLine | sentBarrier | cross =>
    exact hquiet rfl rfl
  | finish => exact hquiet rfl (finish_spent _ _).pending_eq
  | flushStream => exact hquiet rfl (flushNext_spent _ _ _).pending_eq

theorem move_fares {now : Stamp} {u : State} {e : Event} (hm : Move now (states past) e u)
    (hs : Sound (states past)) (he : begun t e = [])
    (h : Fares states t i past base ((states past).issued t) ((states past).callers t)) :
    Fares states t i (past ++ [(now, e)]) base (u.issued t) (u.callers t) := by
  rw [move_issued hm hs t]
  by_cases ht : e.caller? = some t
  · exact (move_advance hm ht).fares rfl he h
  · rw [move_callers hm ht, emits, atStep_other ht, List.append_nil]
    exact h.later _

end

section

variable {number : Nat} {mode : Mode} {o : Options} {es : List (Stamp × Event)}

theorem run_fares {before during : List (Stamp × Event)} {n : Stamp} {t : Thread} {i : Invocation}
    (h : machine.Valid (initial number mode o) (before ++ (n, .start t i) :: during))
    (leveled : ∃ l format args, i.call = .leveled l format args) (quiet : started t during = []) :
    let states d := machine.after (initial number mode o) (before ++ (n, .start t i) :: d)
    Fares states t i during ((machine.after (initial number mode o) before).issued t)
      ((states during).issued t) ((states during).callers t) := by
  intro states
  refine call_induction h quiet (P := fun past s => Fares states t i past
    ((machine.after (initial number mode o) before).issued t) (s.issued t) (s.callers t)) ?_ ?_
  · obtain ⟨hbefore, hstart, -⟩ := (machine.valid_append _ _ _).mp h
    have hissued :=
      move_issued (machine_move hstart) (reachable_sound (reachable_of_valid hbefore)) t
    have hcallers :
      (machine.next (machine.after (initial number mode o) before) (n, .start t i)).callers
        t = begin i := update_same _ _ _
    obtain ⟨l, format, args, hc⟩ := leveled
    have hbegin : begin i = .deciding i l := by rw [begin, hc]
    rw [hcallers, hbegin, hissued]
    exact ⟨rfl, List.append_nil _, format, args, hc⟩
  · intro past e s hr hm hbegun hfares
    exact move_fares hm (reachable_sound hr) hbegun hfares

structure Snapshots (number : Nat) (mode : Mode) (o : Options) (es : List (Stamp × Event))
    (s : State) : Prop where
  /-- Each write has one whole line that was handed off, in the order of the hand-offs. -/
  whole : s.attempts = s.written.map Prod.snd ∧ s.written <+: s.handedOff
  /-- Each line that a thread has handed off was composed at one moment of the call that it is of,
  before the hand-off, and under the flags that the logger held at that moment. -/
  formatted : ∀ t k l, (ofThread t s.handedOff)[k]? = some l →
    ∃ before now rest i, es = before ++ (now, .caller t) :: rest ∧
      ComposedAt number mode o before now t i k l
  /-- A leveled call was let through or dropped for the threshold of one moment of the call. -/
  decided : ∀ before n t i l format args during, es = before ++ (n, .start t i) :: during →
    i.call = .leveled l format args → started t during = [] → (s.callers t).pending = [] →
    Fate (fun d =>
      machine.after (initial number mode o) (before ++ (n, .start t i) :: d)) t i during
      ((machine.after (initial number mode o) before).issued t) (s.issued t)
  /-- What a thread has issued it hands off, and when its call has ended it has. -/
  issued : ∀ t, ofThread t s.handedOff <+: s.issued t ∧
    (Finished (s.callers t) → ofThread t s.handedOff = s.issued t)

theorem lines_keep_one_snapshot (h : machine.Valid (initial number mode o) es) :
    Snapshots number mode o es (machine.after (initial number mode o) es) := by
  have hr := reachable_of_valid h
  have hs := reachable_sound hr
  obtain ⟨handled, hd⟩ := reachable_delivered hr
  refine ⟨⟨(written_lines hs hd).symm, List.take_prefix _ _⟩, ?_, ?_, ?_⟩
  · intro t k l hl
    exact composed_lines h hl
  · rintro before n t i l format args during rfl hc quiet hpending
    exact (fares_of_pending hpending).mp (run_fares h ⟨l, format, args, hc⟩ quiet)
  · intro t
    refine ⟨handedOff_issued _ t, ?_⟩
    intro finished
    exact (finished_issued hs.coupled finished).symm

end

/-- Between two steps of a call another thread asks for call sites and raises the threshold, and
before the line gets to the worker it takes the call sites back. -/
def shifting : List (Stamp × Event) :=
  let step (n k : Nat) : List Event := List.replicate k (.caller (.caller n))
  let work (k : Nat) : List Event := List.replicate k (.worker none)
  let logs : List Event :=
    [.start (.caller 0) ⟨.leveled .error (.text "a") [], [⟨"/d/x", some 7, none, "f"⟩], [], .usual⟩]
  let sets (c : Call) : List Event :=
    [.start (.caller 1) ⟨c, [], [], .usual⟩] ++ step 1 2 ++ [.collect (.caller 1)]
  let events : List Event :=
    work 3 ++ logs ++ step 0 1 ++ sets (.setFlags (.flags (.single .shortFile))) ++
      sets (.setPriority (.priority .emergency)) ++ step 0 1 ++ sets (.setFlags (.flags .empty)) ++
      step 0 5 ++ work 2 ++ step 0 3 ++ work 1
  events.map (⟨2024, 5, 6, 7, 8, 9, 1234⟩, ·)

theorem shifting_keeps_one_snapshot :
    let s := machine.after (initial 1 .bytes infoOnly) shifting
    s.attempts = [Text.points "<4>:(x:7) a\n".toList] ∧ s.options.threshold = .emergency ∧
      s.options.flags = .empty ∧ Snapshots 1 .bytes infoOnly shifting s :=
  ⟨by decide +kernel, by decide +kernel, by decide +kernel,
    lines_keep_one_snapshot (by decide +kernel)⟩

end Logger

end LeveledLog
