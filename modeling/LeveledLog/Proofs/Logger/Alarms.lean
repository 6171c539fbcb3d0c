import LeveledLog.Proofs.Logger.StandIns

/-!
Calls that end an operation. Such a call says what a call says that ends the program, but for the
number of frames, and once all of it is written a fault comes out of it with the same message. The
logger has kept its options, and from then on it does what it would do if the line and the frames
had been emitted by other calls. Without a worker nothing of it is written, and no fault comes out.
-/

namespace LeveledLog

theorem Text.characters_points (s : List Char) : Text.characters? (Text.points s) = some s := by
  induction s with
  | nil => rfl
  | cons c s ih =>
    rw [Text.characters?, Text.points_cons, List.mapM_cons, ← Text.characters?, ih]
    rfl

structure Fault.Alarms (f : Fault) (m : List CodePoint) : Prop where
  error : ∃ e, f.raised? = some e ∧ e.kind = .panic ∧ e.message = m ∧ e.severity = .fatal ∧
    e.text = Text.points "LVLOG_PANIC: ".toList ++ m
  text : ∀ s, m = Text.points s → f.text = "LVLOG_PANIC: " ++ String.ofList s

theorem panicked_alarms (m : List CodePoint) : (Fault.panicked m).Alarms m := by
  constructor
  · have htext : "LVLOG_PANIC: ".toList = "LVLOG_PANIC".toList ++ [':', ' '] := rfl
    refine ⟨_, rfl, rfl, rfl, rfl, ?_⟩
    rw [htext, Text.points_append, List.append_assoc]
    rfl
  · rintro s rfl
    change "LVLOG_PANIC" ++ ": " ++
      (((Text.characters? (Text.points s)).map String.ofList).getD "") = _
    rw [Text.characters_points]
    rfl

namespace Logger

/-- What a call has come to that ends an operation, when `during` has happened since it began. -/
structure Alarmed (number : Nat) (mode : Mode) (o : Options) (before : List (Stamp × Event))
    (n : Stamp) (t : Thread) (i : Invocation) (m : List CodePoint) (looks : Nat)
    (during : List (Stamp × Event)) : Prop where
  /-- It ends in a fault with its message, which was rendered once. -/
  raised : (machine.after (initial number mode o) (before ++ (n, .start t i) :: during)).callers t =
    .done (.raised (.panicked m)) looks
  handed : ∃ d now rest,
    let mid := machine.after (initial number mode o) (before ++ (n, .start t i) :: d)
    during = d ++ (now, .caller t) :: rest ∧ mid.callers t = .composing i ∧
      ofThread t (machine.after (initial number mode o)
          (before ++ (n, .start t i) :: during)).handedOff =
        ofThread t (machine.after (initial number mode o) before).handedOff ++
          Direct.emitted mid.options.flags now i
  /-- By then the worker has finished with all that was handed off before the call began, and with
  all that the thread itself ever handed off. -/
  written :
    let es := before ++ (n, .start t i) :: during
    (settled number mode o es).map Prod.snd = (results (initial number mode o) es).map Prod.fst ∧
      (machine.after (initial number mode o) before).handedOff <+: settled number mode o es ∧
      ofThread t (settled number mode o es) =
        ofThread t (machine.after (initial number mode o) es).handedOff
  /-- No step of the call changes an option. -/
  kept : ∀ d now rest, during = d ++ (now, .caller t) :: rest →
    let mid := machine.after (initial number mode o) (before ++ (n, .start t i) :: d)
    (machine.next mid (now, .caller t)).options = mid.options
  /-- All that may come is what may come after a message at the highest priority, a backtrace and a
  wait for the worker, and it comes to the same. -/
  resumed : ∀ s fr, m = Text.points s → ∃ instead,
    started t instead = [utterance i s, trace i fr, wait i] ∧ others t instead = others t during ∧
    ∀ now, Meet (initial number mode o)
      ((before ++ (n, .start t i) :: during) ++ [(now, .collect t)])
      ((before ++ instead) ++ [(now, .collect t)])

/-- How the two calls go together that end something, when there is so much room and their message
is this. -/
structure Agreement (room : Room) (format : Value) (args : List Value) (m : List CodePoint)
    (looks : Nat) : Prop where
  /-- At one moment both have the same line, or none for an empty message, and the frames of the one
  are the first five of the other. -/
  words : ∀ f now stack streams made, ∃ words all, Backtrace.Shown stack 0 all ∧
    words = Direct.lineOf f now stack .emergency true m ∧ (words = [] ↔ m = []) ∧
    Direct.emitted f now ⟨.fatal format args, stack, streams, ⟨room, made⟩⟩ =
      words ++ [Text.points (Backtrace.block all)] ∧
    Direct.emitted f now ⟨.panic format args, stack, streams, ⟨room, made⟩⟩ =
      words ++ [Text.points (Backtrace.block (all.take 5))]
  fatal : ∀ {number mode o before n t i during},
    machine.Valid (initial number mode o) (before ++ (n, .start t i) :: during) →
    i.call = .fatal format args → i.host.room = room → started t during = [] →
    let states d := machine.after (initial number mode o) (before ++ (n, .start t i) :: d)
    Finished ((states during).callers t) →
    ∃ d now rest, during = d ++ (now, .caller t) :: rest ∧ (states d).callers t = .composing i ∧
      ofThread t (states during).handedOff =
        ofThread t (machine.after (initial number mode o) before).handedOff ++
          Direct.emitted (states d).options.flags now i
  panic : ∀ {number mode o before n t i during},
    machine.Valid (initial number mode o) (before ++ (n, .start t i) :: during) →
    i.call = .panic format args → i.host.room = room → started t during = [] →
    IsDone ((machine.after (initial number mode o)
      (before ++ (n, .start t i) :: during)).callers t) →
    Alarmed number mode o before n t i m looks during
  /-- It comes to its end once nobody can go on, unless the worker has ended, and if nothing new
  begins there are only so many steps until then, whatever becomes of the writes. -/
  reached : ∀ {number mode o before n t i during},
    machine.Valid (initial number mode o) (before ++ (n, .start t i) :: during) →
    i.call = .panic format args → i.host.room = room → started t during = [] →
    ¬IsIdle ((machine.after (initial number mode o)
      (before ++ (n, .start t i) :: during)).callers t) →
    ∃ bound, ∀ rest,
      machine.Valid (initial number mode o) ((before ++ (n, .start t i) :: during) ++ rest) →
      (∀ e ∈ rest, e.2.begins = false) → goings rest ≤ bound ∧
        ((∀ e ∈ rest, e.2 ≠ .collect t) →
          let s := machine.after (initial number mode o)
            ((before ++ (n, .start t i) :: during) ++ rest)
          Still s → ¬Ended s.worker → Alarmed number mode o before n t i m looks (during ++ rest))
  /-- If the worker has ended before it released the barrier of the call, no fault comes out. -/
  unanswered : ∀ {number mode o es t}, machine.Valid (initial number mode o) es →
    let s := machine.after (initial number mode o) es
    Ended s.worker → Barred s.released (s.callers t) →
      ∀ rest, machine.Valid s rest → ¬IsDone ((machine.after s rest).callers t)
  error : (Fault.panicked m).Alarms m

def Alarming (m : List CodePoint) (looks : Nat) : Progress → Prop
  | .handing _ ending l | .sending _ _ ending l | .awaiting _ _ ending l =>
    ending = alarm m ∧ l = looks
  | .done outcome l => outcome = .raised (.panicked m) ∧ l = looks
  | _ => False

/-- How far a call has come that ends an operation, whose barrier gets a number from `k` on. -/
inductive Raises (k : Nat) (s : State) (t : Thread) (i : Invocation) (m : List CodePoint)
    (looks : Nat) : Progress → Prop where
  | idle : Raises k s t i m looks .idle
  | composing : Raises k s t i m looks (.composing i)
  | planned {p} (alarming : Alarming m looks p) (closing : Closing k s t p) :
      Raises k s t i m looks p

section

variable {now : Stamp} {s u : State} {t : Thread} {i : Invocation} {m : List CodePoint}
  {e : Event} {k looks : Nat} {p q : Progress} {format : Value} {args : List Value}

theorem Advance.alarming (ha : Advance now s t e p q) (h : Alarming m looks p) :
    q = .idle ∨ Alarming m looks q := by
  cases ha with
  | collect => exact .inl rfl
  | start | drop | pass | compose | refuse | flushStream => exact h.elim
  | finish =>
    obtain ⟨rfl, rfl⟩ := h
    exact .inr ⟨rfl, rfl⟩
  | handLine | handBarrier | send | sentLine | sentBarrier | cross => exact .inr h

theorem move_planned (hm : Move now s (.caller t) u) (hp : s.callers t = .composing i)
    (panic : i.call = .panic format args)
    (renders : (message i.host.room format args).run.run 0 = (.ok m, looks)) :
    u.options = s.options ∧ Alarming m looks (u.callers t) ∧ Closing k u t (u.callers t) := by
  have hplan := plan_of_panic s.options now panic renders
  cases hm with
  | compose composing made =>
    obtain rfl := Progress.composing.inj (hp.symm.trans composing)
    obtain ⟨hok, rfl⟩ := Prod.mk.inj (made.symm.trans hplan)
    obtain ⟨rfl, rfl⟩ := Prod.mk.inj (Except.ok.inj hok)
    rw [set_callers, update_same]
    exact ⟨rfl, ⟨rfl, rfl⟩, .inl ⟨_, rfl⟩⟩
  | refuse composing failed =>
    obtain rfl := Progress.composing.inj (hp.symm.trans composing)
    cases failed.symm.trans hplan
  | drop w | pass w | finish w | handLine w | handBarrier w | send w | sentLine w | sentBarrier w
  | cross w | flushStream w =>
    cases hp.symm.trans w

theorem move_raises (hm : Move now s e u) (hs : Sound s) (hn : Numbered s) (hle : k ≤ s.barriers)
    (quiet : begun t e = []) (panic : i.call = .panic format args)
    (renders : (message i.host.room format args).run.run 0 = (.ok m, looks))
    (h : Raises k s t i m looks (s.callers t)) : Raises k u t i m looks (u.callers t) := by
  generalize hp : s.callers t = p at h
  cases h with
  | idle =>
    rcases move_idle hm hp with ⟨hidle, -⟩ | ⟨j, hbegun, -⟩
    · rw [hidle]
      exact .idle
    · rw [quiet] at hbegun
      cases hbegun
  | composing =>
    by_cases he : e.caller? = some t
    · have hcan := move_advance hm he
      rw [hp] at hcan
      obtain rfl : e = .caller t := by
        generalize u.callers t = q at hcan
        cases hcan <;> rfl
      obtain ⟨-, halarming, hclosing⟩ := move_planned hm hp panic renders
      exact .planned halarming hclosing
    · rw [move_callers hm he, hp]
      exact .composing
  | planned halarming hclosing =>
    rcases move_keeps_closing hm hs hn hle (by rwa [hp]) with hidle | hlater
    · rw [hidle]
      exact .idle
    · refine .planned ?_ hlater
      by_cases he : e.caller? = some t
      · have hadvance := move_advance hm he
        rw [hp] at hadvance
        rcases hadvance.alarming halarming with hidle | hq
        · rw [hidle] at hlater
          exact hlater.elim
        · exact hq
      · rwa [move_callers hm he, hp]

theorem move_planned_options (hm : Move now s (.caller t) u) (halarming : Alarming m looks p)
    (hp : s.callers t = p) : u.options = s.options := by
  cases hm with
  | compose composing =>
    rw [← hp, composing] at halarming
    exact halarming.elim
  | _ => rfl

end

section

variable {number : Nat} {mode : Mode} {o : Options} {before during rest : List (Stamp × Event)}
  {n : Stamp} {t : Thread} {i : Invocation} {m : List CodePoint} {looks : Nat} {format : Value}
  {args : List Value}

theorem run_raises (h : machine.Valid (initial number mode o) (before ++ (n, .start t i) :: during))
    (panic : i.call = .panic format args)
    (renders : (message i.host.room format args).run.run 0 = (.ok m, looks))
    (quiet : started t during = []) :
    let k := (machine.after (initial number mode o) before).barriers
    let s := machine.after (initial number mode o) (before ++ (n, .start t i) :: during)
    Raises k s t i m looks (s.callers t) := by
  intro k
  refine (call_induction h quiet (P := fun past s => k ≤ s.barriers ∧
    Raises k s t i m looks (s.callers t)) ?_ ?_).2
  · have hbegin : begin i = .composing i := by rw [begin, panic]
    have hcallers : (machine.next (machine.after (initial number mode o) before)
        (n, .start t i)).callers t = begin i := update_same _ _ _
    rw [hcallers, hbegin]
    exact ⟨Nat.le_refl _, .composing⟩
  · rintro past e s hr hm hbegun ⟨hle, hraises⟩
    exact ⟨Nat.le_trans hle (move_barriers hm), move_raises hm (reachable_sound hr)
      (reachable_numbered hr) hle hbegun panic renders hraises⟩

theorem panic_kept (h : machine.Valid (initial number mode o) (before ++ (n, .start t i) :: during))
    (panic : i.call = .panic format args)
    (renders : (message i.host.room format args).run.run 0 = (.ok m, looks))
    (quiet : started t during = []) {d rest : List (Stamp × Event)} {now : Stamp}
    (split : during = d ++ (now, .caller t) :: rest) :
    let mid := machine.after (initial number mode o) (before ++ (n, .start t i) :: d)
    (machine.next mid (now, .caller t)).options = mid.options := by
  intro mid
  subst split
  have hsplit : before ++ (n, .start t i) :: (d ++ (now, .caller t) :: rest) =
      (before ++ (n, .start t i) :: d) ++ (now, .caller t) :: rest := by simp
  rw [hsplit, machine.valid_append] at h
  obtain ⟨hpast, he, -⟩ := h
  have hquiet : started t d = [] := by
    rw [started, List.flatMap_append, List.append_eq_nil_iff] at quiet
    exact quiet.1
  have hm : Move now mid (.caller t) (machine.next mid (now, .caller t)) := machine_move he
  have hraises := run_raises hpast panic renders hquiet
  dsimp only at hraises
  generalize hp : mid.callers t = p at hraises
  cases hraises with
  | idle =>
    have hcan : CallerCanStep mid t (mid.callers t) := he
    rw [hp] at hcan
    exact hcan.elim
  | composing => exact (move_planned (k := 0) hm hp panic renders).1
  | planned halarming => exact move_planned_options hm halarming hp

theorem run_relieved
    (h : machine.Valid (initial number mode o) (before ++ (n, .start t i) :: during))
    (panic : i.call = .panic format args) {s : List Char}
    (renders : (message i.host.room format args).run.run 0 = (.ok (Text.points s), looks))
    (fr : Frame) (quiet : started t during = [])
    (done : IsDone ((machine.after (initial number mode o)
      (before ++ (n, .start t i) :: during)).callers t)) :
    ∃ instead, StandsIn number mode o before n t i during instead
      [utterance i s, trace i fr, wait i] (.done (.returned (.bool true)) 0) := by
  rcases run_stands_in h panic renders fr quiet with idle | ⟨q, calls, instead, hin, hstands⟩
  · rw [idle] at done
    exact done.elim
  · generalize (machine.after (initial number mode o)
      (before ++ (n, .start t i) :: during)).callers t = p at hin done
    cases hin with
    | done => exact ⟨instead, hstands⟩
    | _ => exact done.elim

theorem panic_alarmed
    (h : machine.Valid (initial number mode o) (before ++ (n, .start t i) :: during))
    (panic : i.call = .panic format args)
    (renders : (message i.host.room format args).run.run 0 = (.ok m, looks))
    (quiet : started t during = [])
    (done : IsDone ((machine.after (initial number mode o)
      (before ++ (n, .start t i) :: during)).callers t)) :
    Alarmed number mode o before n t i m looks during := by
  have hraises := run_raises h panic renders quiet
  obtain ⟨outcome, looks', hdone⟩ := isDone_iff.mp done
  dsimp only at hraises
  rw [hdone] at hraises
  obtain ⟨⟨rfl, rfl⟩, hcrossed⟩ : (outcome = .raised (.panicked m) ∧ looks' = looks) ∧
      Crossed (machine.after (initial number mode o) before).barriers
        (machine.after (initial number mode o) (before ++ (n, .start t i) :: during)) t := by
    cases hraises with
    | planned halarming hclosing => exact ⟨halarming, hclosing⟩
  refine ⟨hdone, ?_, ⟨settled_lines h, ?_⟩, ?_, ?_⟩
  · have kept : ∀ l format args, i.call ≠ .leveled l format args := by
      rw [panic]
      exact fun _ _ _ => Call.noConfusion
    exact run_uttered_lines h kept quiet (.inr done)
  · refine crossed_settled h (Nat.le_refl _) ?_ hcrossed
    rw [hdone]
    exact id
  · intro d now rest split
    exact panic_kept h panic renders quiet split
  · rintro s fr rfl
    obtain ⟨instead, hstands⟩ := run_relieved h panic renders fr quiet done
    refine ⟨instead, hstands.calls, hstands.beside, fun now => ?_⟩
    refine .of_after (Machine.valid_snoc.mpr ⟨h, done⟩) (Machine.valid_snoc.mpr ⟨hstands.valid, ?_⟩)
      ?_ ?_
    · change IsDone _
      rw [hstands.ends, set_callers, update_same]
      trivial
    · rw [Machine.after_snoc, Machine.after_snoc, hstands.ends]
      exact (set_set _ t _ _).symm
    · rw [results, results, Machine.history_snoc, Machine.history_snoc]
      exact congrArg (· ++ []) hstands.results.symm

theorem panic_agrees_with_fatal {room : Room}
    (renders : (message room format args).run.run 0 = (.ok m, looks)) :
    Agreement room format args m looks := by
  have rendered := Render.outcome_of_run renders
  refine ⟨?_, ?_, ?_, ?_, ?_, panicked_alarms m⟩
  · intro f now stack streams made
    refine ⟨_, Backtrace.frames stack 0, Backtrace.frames_shown (n := 0) (.inl rfl), rfl, ?_,
      emitted_fatal rfl rendered, emitted_panic rfl rendered⟩
    unfold Direct.lineOf
    split <;> simp_all
  · intro number mode o before n t i during h fatal roomy quiet states finished
    refine run_uttered_lines h ?_ quiet finished
    rw [fatal]
    exact fun _ _ _ => Call.noConfusion
  · intro number mode o before n t i during h panic roomy quiet done
    exact panic_alarmed h panic (by rwa [roomy]) quiet done
  · intro number mode o before n t i during h panic roomy quiet busy
    obtain ⟨bound, hbound⟩ := run_settles (reachable_of_valid h)
    refine ⟨bound, fun rest hrun hquiet => ?_⟩
    refine ⟨hbound rest ((machine.valid_append _ _ _).mp hrun).2 hquiet, ?_⟩
    intro uncollected s still alive
    have hdone := run_answered hrun busy uncollected still alive
    have hlonger : started t (during ++ rest) = [] := by
      rw [started, List.flatMap_append, ← started, ← started, quiet, started_quiet hquiet]
      rfl
    rw [List.append_assoc, List.cons_append] at hrun hdone
    exact panic_alarmed hrun panic (by rwa [roomy]) hlonger hdone
  · intro number mode o es t h s hended hbarred rest hrest
    exact run_never_done (reachable_of_valid h) hrest hended hbarred

end

def outcry : List (Stamp × Event) := finale.take (finale.length - 3)

theorem outcry_agrees :
    let now : Stamp := ⟨2024, 5, 6, 7, 8, 10, 0⟩
    let i : Invocation := ⟨.panic (.text "bye") [], [⟨"/d/x", some 7, some "m", "f"⟩], [], .usual⟩
    settled 1 .bytes infoOnly (overture ++ (now, .start (.caller 0) i) :: outcry) =
        [(.caller 1, Text.points "<2>:a\n".toList), (.caller 0, Text.points "<6>:bye\n".toList),
          (.caller 2, Text.points "<2>:b\n".toList),
          (.caller 0, Text.points "Backtrace:\n    /d/x:7 [m.f]\n    \n".toList)] ∧
      Alarmed 1 .bytes infoOnly overture now (.caller 0) i (Text.points "bye".toList) 0 outcry ∧
      Agreement .usual (.text "bye") [] (Text.points "bye".toList) 0 := by
  intro now i
  have hagree : Agreement .usual (.text "bye") [] (Text.points "bye".toList) 0 :=
    panic_agrees_with_fatal rfl
  have hquiet : started (.caller 0) outcry = [] := by decide +kernel
  exact ⟨by decide +kernel, hagree.panic (by decide +kernel) rfl rfl hquiet (by decide +kernel),
    hagree⟩

/-- A call that ends an operation with a message that a destination of bytes cannot be given, up to
where its thread waits. -/
def choked : List (Stamp × Event) :=
  let panics : Event :=
    .start (.caller 0) ⟨.panic (.text "%c") [.int 0xd800], [], [], .usual⟩
  let step (k : Nat) : List Event := List.replicate k (.caller (.caller 0))
  let work (k : Nat) : List Event := List.replicate k (.worker none)
  (work 3 ++ [panics] ++ step 6 ++ work 2 ++ step 3 ++ work 1 ++ step 3).map
    (⟨2024, 5, 6, 7, 8, 9, 1234⟩, ·)

/-- Its message is rendered, and still nothing of it is written and no fault ever comes out. -/
theorem choked_unheard :
    let s := machine.after (initial 1 .bytes unfiltered) choked
    (message .usual (.text "%c") [.int 0xd800]).outcome.toOption = some [.surrogate 0] ∧
      machine.Valid (initial 1 .bytes unfiltered) choked ∧ s.attempts = [] ∧
      ¬IsIdle (s.callers (.caller 0)) ∧ ∀ rest, machine.Valid s rest →
        (machine.after s rest).attempts = [] ∧
          ¬IsDone ((machine.after s rest).callers (.caller 0)) := by
  intro s
  have h : machine.Valid (initial 1 .bytes unfiltered) choked := by decide +kernel
  have hended : Ended s.worker := by decide +kernel
  have hbarred : Barred s.released (s.callers (.caller 0)) := by decide +kernel
  refine ⟨by decide +kernel, h, by decide +kernel, by decide +kernel, fun rest hrest => ?_⟩
  have hattempts : s.attempts = [] := by decide +kernel
  exact ⟨(run_deserted hrest hended).attempts.trans hattempts,
    run_never_done (reachable_of_valid h) hrest hended hbarred⟩

end Logger

end LeveledLog
