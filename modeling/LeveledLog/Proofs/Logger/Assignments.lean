import LeveledLog.Proofs.Logger.Refusals
import LeveledLog.Proofs.World.Coercion
import LeveledLog.World.Session

/-!
Assignments of the options of a logger that is in use. A value is accepted if it stands for an
option of its kind. An assignment that is accepted changes that one option, at a single event; one
that is refused leaves nothing behind. No other call changes an option, so at any moment the
threshold is a priority, and emergencies pass it.
-/

namespace LeveledLog

open Render (Fails)

namespace Call

def Assigns : Call → Prop
  | .setPriority _ => True
  | .setFlags _ => True
  | .setPrefix _ => True
  | _ => False

instance (c : Call) : Decidable c.Assigns :=
  match c with
  | .setPriority _ | .setFlags _ | .setPrefix _ => isTrue trivial
  | .leveled _ _ _ | .printf _ _ | .print _ | .output _ _ _ | .backtrace _ | .sync | .panic _ _
  | .fatal _ _ => isFalse id

def Acceptable (made : List Nat) : Call → Prop
  | .setPriority v => ∃ p, Priority.Stands v p
  | .setFlags v => ∃ f, (Flags.ofValue made v).outcome = .ok f
  | _ => True

end Call

/-- An assignment that is carried out. One option becomes what the value stands for, and the others
are what they were. -/
inductive Assigned (o : Options) : Call → Options → Prop where
  | priority {v : Value} {p : Priority} (stands : Priority.Stands v p) :
      Assigned o (.setPriority v) { o with threshold := p }
  | flags {v : Value} {f : Flags} (stands : Flags.Stands v f) :
      Assigned o (.setFlags v) { o with flags := f }
  | linePrefix {v : Value} : Assigned o (.setPrefix v) { o with linePrefix := v }

section

variable {o o' : Options} {now : Stamp} {i : Invocation} {plan : Plan} {looks : Nat} {f : Fault}

/-- An assignment is carried out if its value stands for an option of its kind, and only then. -/
theorem assignment_cases (o : Options) (now : Stamp) (assigns : i.call.Assigns) :
    (∃ o', Plan.make o now i = pure (o', Plan.ofTasks []) ∧ Assigned o i.call o') ∨
      (Fails (Plan.make o now i) ∧ ¬i.call.Acceptable i.host.made) := by
  unfold Plan.make
  cases hc : i.call with
  | setPriority v =>
    rcases Priority.ofValue_cases v with ⟨p, hp, hstands⟩ | ⟨hfails, hnone⟩
    · refine .inl ⟨_, ?_, .priority hstands⟩
      dsimp only
      rw [hp, pure_bind]
    · refine .inr ⟨hfails.bind _, ?_⟩
      rintro ⟨p, hp⟩
      exact hnone p hp
  | setFlags v =>
    rcases Flags.ofValue_cases i.host.made v with ⟨f, hf, hstands⟩ | hfails
    · refine .inl ⟨_, ?_, .flags hstands⟩
      dsimp only
      rw [hf, pure_bind]
    · refine .inr ⟨hfails.bind _, ?_⟩
      rintro ⟨f, hf⟩
      exact hfails 0 f hf
  | setPrefix v => exact .inl ⟨_, rfl, .linePrefix⟩
  | _ =>
    rw [hc] at assigns
    exact assigns.elim

theorem assigned_of_made (assigns : i.call.Assigns)
    (made : (Plan.make o now i).run.run 0 = (.ok (o', plan), looks)) :
    Assigned o i.call o' ∧ plan = Plan.ofTasks [] := by
  rcases assignment_cases o now assigns with ⟨o'', hmake, hassigned⟩ | ⟨hfails, -⟩
  · rw [hmake] at made
    cases made
    exact ⟨hassigned, rfl⟩
  · exact (hfails 0 _ (congrArg Prod.fst made)).elim

theorem unacceptable_of_failed (assigns : i.call.Assigns)
    (failed : (Plan.make o now i).run.run 0 = (.error f, looks)) :
    ¬i.call.Acceptable i.host.made := by
  rcases assignment_cases o now assigns with ⟨o', hmake, -⟩ | ⟨-, hrefused⟩
  · rw [hmake] at failed
    cases failed
  · exact hrefused

theorem settings_other (other : ¬i.call.Assigns) (o : Options) : Direct.settings o i = o := by
  unfold Direct.settings Direct.assigned
  cases hc : i.call with
  | setPriority | setFlags | setPrefix =>
    rw [hc] at other
    exact absurd trivial other
  | _ => rfl

end

namespace Options

variable {o : Options} {p q : Priority}

/-- A priority passes if it reaches the threshold. -/
theorem passes_priority (o : Options) (p : Priority) :
    o.passes (.priority p) = pure (o.loggable p) := by
  obtain ⟨threshold, flags, linePrefix⟩ := o
  cases threshold <;> cases p <;> rfl

theorem loggable_iff : o.loggable p = true ↔ o.threshold ≤ p := decide_eq_true_iff

theorem loggable_mono (h : o.loggable p = true) (hpq : p ≤ q) : o.loggable q = true := by
  rw [loggable_iff] at h ⊢
  exact Nat.le_trans h hpq

theorem loggable_emergency (o : Options) : o.loggable .emergency = true := by
  obtain ⟨threshold, flags, linePrefix⟩ := o
  cases threshold <;> rfl

end Options

namespace Logger

abbrev since (number : Nat) (mode : Mode) (o : Options) (before : List (Stamp × Event)) (n : Stamp)
    (t : Thread) (i : Invocation) (past : List (Stamp × Event)) : State :=
  machine.after (initial number mode o) (before ++ (n, .start t i) :: past)

def OnlyMoves (s : State) (t : Thread) (e : Stamp × Event) : Prop :=
  ∃ p, machine.next s e = s.set t p

/-- An event at which a call is carried out, if it is at all. -/
inductive CarriesOut (s : State) : Event → Invocation → Prop where
  | caller {t : Thread} {i : Invocation} (composing : s.callers t = .composing i) :
      CarriesOut s (.caller t) i
  | own {i : Invocation} : CarriesOut s (.ownCall i) i

section

variable {s : State} {now : Stamp} {i : Invocation} {e : Stamp × Event}

theorem own_call_refused {f : Fault} {looks : Nat} (assigns : i.call.Assigns)
    (failed : (Plan.make s.options now i).run.run 0 = (.error f, looks)) :
    ownCall s now i = (s, .raised f, looks) := by
  cases hc : i.call with
  | setPriority | setFlags | setPrefix =>
    simp only [ownCall, failed, hc]
    rfl
  | _ =>
    rw [hc] at assigns
    exact assigns.elim

theorem own_call_made {o : Options} {looks : Nat} (assigns : i.call.Assigns)
    (made : (Plan.make s.options now i).run.run 0 = (.ok (o, Plan.ofTasks []), looks)) :
    ownCall s now i = ({ s with options := o }, .returned .none, looks) := by
  cases hc : i.call with
  | setPriority | setFlags | setPrefix =>
    simp only [ownCall, made, hc]
    rfl
  | _ =>
    rw [hc] at assigns
    exact assigns.elim

/-- An assignment from the worker itself is refused or carried out at once. -/
theorem own_assignment (s : State) (now : Stamp) (assigns : i.call.Assigns) :
    (∃ f, (ownCall s now i).1 = s ∧ (ownCall s now i).2.1 = .raised f ∧
      ¬i.call.Acceptable i.host.made) ∨
      ∃ o, (ownCall s now i).1 = { s with options := o } ∧
        (ownCall s now i).2.1 = .returned .none ∧ Assigned s.options i.call o := by
  rcases hmade : (Plan.make s.options now i).run.run 0 with ⟨f | ⟨o, plan⟩, looks⟩
  · rw [own_call_refused assigns hmade]
    exact .inl ⟨f, rfl, rfl, unacceptable_of_failed assigns hmade⟩
  · obtain ⟨hassigned, rfl⟩ := assigned_of_made assigns hmade
    rw [own_call_made assigns hmade]
    exact .inr ⟨o, rfl, rfl, hassigned⟩

theorem move_options {u : State} {t : Thread} (hm : Move now s (.caller t) u) :
    u.options = s.options ∨ ∃ i, CarriesOut s (.caller t) i ∧
      Assigned s.options i.call u.options := by
  cases hm with
  | @compose t i o p looks composing made =>
    by_cases assigns : i.call.Assigns
    · exact .inr ⟨i, .caller composing, (assigned_of_made assigns made).1⟩
    · exact .inl ((plan_of_made made).2.trans (settings_other assigns s.options))
  | _ => exact .inl rfl

/-- Options change only where an assignment is carried out. -/
theorem options_change (he : machine.Enabled s e) :
    (machine.next s e).options = s.options ∨ ∃ i, CarriesOut s e.2 i ∧
      Assigned s.options i.call (machine.next s e).options := by
  obtain ⟨now, e⟩ := e
  have hm : Move now s e (next now s e) := machine_move he
  change (next now s e).options = _ ∨ ∃ i, CarriesOut s e i ∧ Assigned _ _ (next now s e).options
  cases e with
  | caller t => exact move_options hm
  | ownCall i =>
    have hoptions : (next now s (.ownCall i)).options = (ownCall s now i).1.options := rfl
    rw [hoptions]
    by_cases assigns : i.call.Assigns
    · rcases own_assignment s now assigns with ⟨f, hkept, -⟩ | ⟨o, ho, -, hassigned⟩
      · rw [hkept]
        exact .inl rfl
      · rw [ho]
        exact .inr ⟨i, .own, hassigned⟩
    · rw [own_call_keeps (settings_other assigns)]
      exact .inl rfl
  | start t i => exact .inl rfl
  | collect t => exact .inl rfl
  | worker outcome =>
    generalize next now s (.worker outcome) = u at hm ⊢
    cases hm <;> exact .inl rfl

end

/-- At none of its events has a call changed anything but how far it is. -/
def Untouched (number : Nat) (mode : Mode) (o : Options) (before : List (Stamp × Event)) (n : Stamp)
    (t : Thread) (i : Invocation) (past : List (Stamp × Event)) : Prop :=
  ∀ d e rest, past = d ++ e :: rest → e.2.caller? = some t →
    OnlyMoves (since number mode o before n t i d) t e

/-- At one event an assignment was carried out and nothing else, and at its others it has changed
nothing but how far it is. -/
def Applied (number : Nat) (mode : Mode) (o : Options) (before : List (Stamp × Event)) (n : Stamp)
    (t : Thread) (i : Invocation) (past : List (Stamp × Event)) : Prop :=
  ∃ d now rest, past = d ++ (now, .caller t) :: rest ∧
    (let s := since number mode o before n t i d
      ∃ o' p, Assigned s.options i.call o' ∧
        machine.next s (now, .caller t) = { s with options := o' }.set t p) ∧
    ∀ d' e rest', past = d' ++ e :: rest' → e.2.caller? = some t →
      d' = d ∨ OnlyMoves (since number mode o before n t i d') t e

/-- How far an assignment is: it hands nothing off and waits for nothing. -/
def Underway (i : Invocation) (untouched applied : Prop) : Progress → Prop
  | .composing j => j = i ∧ untouched
  | .handing tasks ending _ => tasks = [] ∧ ending = .value .none ∧ applied
  | .done (.returned v) _ => v = .none ∧ applied
  | .done (.raised _) _ => ¬i.call.Acceptable i.host.made
  | .idle => True
  | _ => False

section

variable {number : Nat} {mode : Mode} {o : Options} {before during past : List (Stamp × Event)}
  {n : Stamp} {t : Thread} {i : Invocation} {e : Stamp × Event}
  {untouched untouched' applied applied' : Prop}
  {p : Progress}

theorem Underway.mono (h : Underway i untouched applied p) (huntouched : untouched → untouched')
    (happlied : applied → applied') : Underway i untouched' applied' p := by
  cases p with
  | composing => exact ⟨h.1, huntouched h.2⟩
  | handing => exact ⟨h.1, h.2.1, happlied h.2.2⟩
  | done outcome =>
    cases outcome with
    | returned => exact ⟨h.1, happlied h.2⟩
    | _ => exact h
  | _ => exact h

theorem Untouched.snoc (h : Untouched number mode o before n t i past)
    (he : e.2.caller? = some t → OnlyMoves (since number mode o before n t i past) t e) :
    Untouched number mode o before n t i (past ++ [e]) := by
  intro d x rest hd hx
  rcases split_snoc hd with ⟨rfl, rfl⟩ | ⟨rest', rfl⟩
  · exact he hx
  · exact h d x rest' rfl hx

theorem Applied.snoc (h : Applied number mode o before n t i past)
    (he : e.2.caller? = some t → OnlyMoves (since number mode o before n t i past) t e) :
    Applied number mode o before n t i (past ++ [e]) := by
  obtain ⟨d, now, rest, rfl, hcarried, hothers⟩ := h
  refine ⟨d, now, rest ++ [e], by simp, hcarried, ?_⟩
  intro d' x rest' hd hx
  rcases split_snoc hd with ⟨rfl, rfl⟩ | ⟨rest'', hsplit⟩
  · exact .inr (he hx)
  · exact hothers d' x rest'' hsplit hx

theorem Untouched.carryOut {now : Stamp} {o' : Options}
    (h : Untouched number mode o before n t i past)
    (hassigned : Assigned (since number mode o before n t i past).options i.call o')
    (hnext : machine.next (since number mode o before n t i past) (now, .caller t) =
      { since number mode o before n t i past with options := o' }.set t p) :
    Applied number mode o before n t i (past ++ [(now, .caller t)]) := by
  refine ⟨past, now, [], rfl, ⟨o', p, hassigned, hnext⟩, ?_⟩
  intro d x rest hd hx
  rcases split_snoc hd with ⟨rfl, -⟩ | ⟨rest', rfl⟩
  · exact .inl rfl
  · exact .inr (h d x rest' rfl hx)

theorem underway_step {now : Stamp} {e : Event} {u : State} (assigns : i.call.Assigns)
    (hm : Move now (since number mode o before n t i past) e u)
    (hu : machine.next (since number mode o before n t i past) (now, e) = u)
    (ht : e.caller? = some t) (hbegun : begun t e = [])
    (h : Underway i (Untouched number mode o before n t i past)
      (Applied number mode o before n t i past)
      ((since number mode o before n t i past).callers t)) :
    Underway i (Untouched number mode o before n t i (past ++ [(now, e)]))
      (Applied number mode o before n t i (past ++ [(now, e)])) (u.callers t) := by
  cases hm with
  | start =>
    obtain rfl := Option.some.inj ht
    simp [begun] at hbegun
  | collect =>
    obtain rfl := Option.some.inj ht
    rw [set_callers, update_same]
    trivial
  | compose w made =>
    obtain rfl := Option.some.inj ht
    rw [w] at h
    obtain ⟨rfl, huntouched⟩ := h
    obtain ⟨hassigned, rfl⟩ := assigned_of_made assigns made
    rw [set_callers, update_same]
    exact ⟨rfl, rfl, huntouched.carryOut hassigned hu⟩
  | refuse w failed =>
    obtain rfl := Option.some.inj ht
    rw [w] at h
    obtain ⟨rfl, -⟩ := h
    rw [set_callers, update_same]
    exact unacceptable_of_failed assigns failed
  | finish w =>
    obtain rfl := Option.some.inj ht
    rw [w] at h
    obtain ⟨-, rfl, happlied⟩ := h
    rw [set_callers, update_same]
    exact ⟨rfl, happlied.snoc fun _ => ⟨_, hu⟩⟩
  | handLine w | handBarrier w =>
    obtain rfl := Option.some.inj ht
    rw [w] at h
    cases h.1
  | drop w | pass w | send w | sentLine w | sentBarrier w | cross w | flushStream w =>
    obtain rfl := Option.some.inj ht
    rw [w] at h
    exact h.elim
  | _ => cases ht

theorem begin_assignment (assigns : i.call.Assigns) : begin i = .composing i := by
  rcases begin_cases i with ⟨h, -⟩ | ⟨l, format, args, -, hc⟩
  · exact h
  · rw [hc] at assigns
    exact assigns.elim

theorem run_underway
    (h : machine.Valid (initial number mode o) (before ++ (n, .start t i) :: during))
    (assigns : i.call.Assigns) (quiet : started t during = []) :
    Underway i (Untouched number mode o before n t i during)
      (Applied number mode o before n t i during)
      ((since number mode o before n t i during).callers t) := by
  refine since_induction h quiet (P := fun past =>
    Underway i (Untouched number mode o before n t i past) (Applied number mode o before n t i past)
      ((since number mode o before n t i past).callers t)) ?_ ?_
  · intro hstart
    have hcallers : (machine.next (machine.after (initial number mode o) before)
        (n, .start t i)).callers t = begin i := update_same _ _ _
    rw [since, Machine.after_snoc, hcallers, begin_assignment assigns]
    refine ⟨rfl, ?_⟩
    rintro d e rest hsplit
    simp at hsplit
  · rintro past ⟨now, e⟩ hpast he hbegun hunderway
    have hm := machine_move he
    rw [since, Machine.after_since]
    by_cases ht : e.caller? = some t
    · exact underway_step assigns hm rfl ht hbegun hunderway
    · rw [move_callers hm ht]
      exact hunderway.mono (fun h => h.snoc fun hc => absurd hc ht)
        fun h => h.snoc fun hc => absurd hc ht

theorem returns_of_assigns (assigns : i.call.Assigns) : ReturnsPlanned i := by
  intro o o' now plan looks made
  obtain ⟨-, rfl⟩ := assigned_of_made assigns made
  rfl

theorem refused_vanished {f : Fault} {looks : Nat}
    (h : machine.Valid (initial number mode o) (before ++ (n, .start t i) :: during))
    (assigns : i.call.Assigns) (quiet : started t during = [])
    (raised : (since number mode o before n t i during).callers t = .done (.raised f) looks) :
    ¬i.call.Acceptable i.host.made ∧ Vanished number mode o before n t i during f := by
  have hunderway := run_underway h assigns quiet
  obtain ⟨-, hvain⟩ := run_unplanned h (returns_of_assigns assigns) quiet
  rw [raised] at hunderway hvain
  exact ⟨hunderway, (hvain ⟨f, rfl⟩).vanished h raised⟩

theorem own_assignment_kept {now : Stamp} {rest : List (Stamp × Event)}
    (h : machine.Valid (initial number mode o) (before ++ (now, .ownCall i) :: rest))
    (assigns : i.call.Assigns) :
    let mid := machine.after (initial number mode o) before
    (∃ f, (ownCall mid now i).2.1 = .raised f ∧ ¬i.call.Acceptable i.host.made ∧
        Unheeded number mode o before now i rest f
          (machine.after (initial number mode o) (before ++ (now, .ownCall i) :: rest))) ∨
      ∃ o', (ownCall mid now i).2.1 = .returned .none ∧ Assigned mid.options i.call o' ∧
        machine.next mid (now, .ownCall i) =
          { mid with options := o', ownOutcomes := mid.ownOutcomes ++ [.returned .none] } := by
  intro mid
  rcases own_assignment mid now assigns with ⟨f, hkept, hraised, hrefused⟩ | ⟨o', ho, hreturned, ha⟩
  · exact .inl ⟨f, hraised, hrefused, kept_call_unheeded h hkept hraised⟩
  · refine .inr ⟨o', hreturned, ha, ?_⟩
    change next now mid (.ownCall i) = _
    simp only [next, ho, hreturned]

end

/-- What the options of a logger come to in a run that ends in a state. -/
structure Governed (number : Nat) (mode : Mode) (o : Options) (es : List (Stamp × Event))
    (s : State) : Prop where
  threshold : s.options.threshold ∈ Priority.all
  flags : 0 ≤ (s.options.flags.bits : Int)
  changes : ∀ before e rest, es = before ++ e :: rest →
    let mid := machine.after (initial number mode o) before
    (machine.next mid e).options = mid.options ∨
      ∃ i, CarriesOut mid e.2 i ∧ Assigned mid.options i.call (machine.next mid e).options
  refused : ∀ before n t i during f looks, es = before ++ (n, .start t i) :: during →
    i.call.Assigns → started t during = [] → s.callers t = .done (.raised f) looks →
    ¬i.call.Acceptable i.host.made ∧ Vanished number mode o before n t i during f
  accepted : ∀ before n t i during v looks, es = before ++ (n, .start t i) :: during →
    i.call.Assigns → started t during = [] → s.callers t = .done (.returned v) looks →
    v = .none ∧ Applied number mode o before n t i during
  own : ∀ before now i rest, es = before ++ (now, .ownCall i) :: rest → i.call.Assigns →
    let mid := machine.after (initial number mode o) before
    (∃ f, (ownCall mid now i).2.1 = .raised f ∧ ¬i.call.Acceptable i.host.made ∧
        Unheeded number mode o before now i rest f s) ∨
      ∃ o', (ownCall mid now i).2.1 = .returned .none ∧ Assigned mid.options i.call o' ∧
        machine.next mid (now, .ownCall i) =
          { mid with options := o', ownOutcomes := mid.ownOutcomes ++ [.returned .none] }
  loggable : ∀ p, s.options.passes (.priority p) = pure (s.options.loggable p) ∧
    (s.options.loggable p = true ↔ s.options.threshold ≤ p)
  upward : ∀ p q, s.options.loggable p = true → p ≤ q → s.options.loggable q = true
  emergency : s.options.loggable .emergency = true

theorem options_governed {number : Nat} {mode : Mode} {o : Options} {es : List (Stamp × Event)}
    (h : machine.Valid (initial number mode o) es) :
    Governed number mode o es (machine.after (initial number mode o) es) := by
  constructor
  case threshold =>
    generalize (machine.after (initial number mode o) es).options.threshold = p
    cases p <;> decide
  case flags => exact Int.natCast_nonneg _
  case changes =>
    rintro before e rest rfl
    obtain ⟨-, he, -⟩ := (machine.valid_append _ _ _).mp h
    exact options_change he
  case refused =>
    rintro before n t i during f looks rfl assigns quiet raised
    exact refused_vanished h assigns quiet raised
  case accepted =>
    rintro before n t i during v looks rfl assigns quiet returned
    have hunderway := run_underway h assigns quiet
    rw [since, returned] at hunderway
    exact hunderway
  case own =>
    rintro before now i rest rfl assigns
    exact own_assignment_kept h assigns
  case loggable => exact fun p => ⟨Options.passes_priority _ p, Options.loggable_iff⟩
  case upward => exact fun p q hp hpq => Options.loggable_mono hp hpq
  case emergency => exact Options.loggable_emergency _

/-- While the worker starts it assigns two options, and one in vain. Later one thread lowers the
threshold with a truth value while another one fails to set it. -/
def tuning : List (Stamp × Event) :=
  let start (n : Nat) (v : Value) : Event := .start (.caller n) ⟨.setPriority v, [], [], .usual⟩
  let step (n : Nat) : Event := .caller (.caller n)
  let own (c : Call) : Event := .ownCall ⟨c, [], [], .usual⟩
  let events : List Event :=
    [own (.setPriority .none), own (.setFlags (.flags ⟨3⟩)), own (.setPrefix (.text "app")),
      .worker none, start 0 (.bool true), start 1 (.text "LOUD"), step 0, step 1, .worker none,
      step 0]
  events.map (⟨2024, 5, 6, 7, 8, 9, 1234⟩, ·)

theorem tuning_governed :
    let s := machine.after (initial 1 .bytes infoOnly) tuning
    s.options = ⟨.debug, ⟨3⟩, .text "app"⟩ ∧
      s.callers (.caller 0) = .done (.returned .none) 0 ∧
      (∃ f, s.callers (.caller 1) = .done (.raised f) 0) ∧
      Governed 1 .bytes infoOnly tuning s :=
  ⟨by rfl, by rfl, ⟨_, by rfl⟩, options_governed (by decide +kernel)⟩

end Logger

end LeveledLog
