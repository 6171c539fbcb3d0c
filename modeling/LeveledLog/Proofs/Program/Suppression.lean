import LeveledLog.Proofs.Logger.Snapshots
import LeveledLog.Proofs.Program.Pruning
import LeveledLog.World.Session

/-!
Calls below the threshold leave no trace: not in a program whose threads go on in any order, and not
in a session, which does one thing after another. A call that is let through hands off one line, or
none when there is nothing to say.
-/

namespace LeveledLog

namespace World

section

variable {w : World} {m : Nat} {x : Member} {i : Invocation} {l : Level} {p : Progress}

/-- Whether the main thread is free to call a logger. All else is at rest. -/
structure Free (w : World) (m : Nat) (x : Member) : Prop where
  member : w.members[m]? = some x
  rest : w.nextTurn [] = none
  idle : x.state.callers mainThread = .idle
  away : (m, mainThread) ∉ w.active

def calling (w : World) (m : Nat) (x : Member) (p : Progress) : World :=
  { w.setMember m { x with state := x.state.set mainThread p } with
    active := w.active ++ [(m, mainThread)] }

/-- Nothing but the main thread is affected by how far its call is. -/
theorem calling_hidden (free : Free w m x) (p : Progress) :
    (calling w m x p).hide (Program.mark Program.nobody m mainThread true) =
      { w with active := w.active ++ [(m, mainThread)] } := by
  have hset := set_hidden free.member p (Program.mark_same Program.nobody m mainThread true)
  rw [Program.hide_mark free.member free.idle, Program.hide_nobody] at hset
  exact congrArg (fun u => { u with active := w.active ++ [(m, mainThread)] }) hset

theorem calling_callerReady (free : Free w m x) (p : Progress) {a : Nat × Thread}
    (ha : a ∈ w.active) : (calling w m x p).callerReady a.1 a.2 = w.callerReady a.1 a.2 := by
  have hshown : Program.mark Program.nobody m mainThread true a.1 a.2 = false := by
    refine if_neg ?_
    rintro ⟨hm, ht⟩
    have hself : a = (m, mainThread) := Prod.ext hm ht
    exact free.away (hself ▸ ha)
  rw [← hide_callerReady _ hshown, calling_hidden free p]
  rfl

theorem calling_workerReady (free : Free w m x) (p : Progress) (k : Nat) :
    (calling w m x p).workerReady k = w.workerReady k := by
  have hhide := hide_workerReady (h := Program.mark Program.nobody m mainThread true)
    (calling w m x p) k
  rw [← hhide, calling_hidden free p]
  rfl

theorem nextTurn_none (h : w.nextTurn [] = none) :
    (w.active.find? fun a => w.callerReady a.1 a.2) = none ∧
      ((List.range w.members.length).find? fun k =>
        !([] : List Nat).contains k && w.workerReady k) = none := by
  unfold nextTurn at h
  split at h
  · cases h
  · rename_i hcallers
    exact ⟨hcallers, Option.map_eq_none_iff.mp h⟩

/-- While only the main thread can go on, it has the next turn. -/
theorem calling_turn (free : Free w m x) (p : Progress) :
    (calling w m x p).nextTurn [] =
      if (calling w m x p).callerReady m mainThread then some (.caller m mainThread) else none := by
  obtain ⟨hcallers, hworkers⟩ := nextTurn_none free.rest
  have hothers : (w.active.find? fun a => (calling w m x p).callerReady a.1 a.2) = none := by
    rw [List.find?_eq_none] at hcallers ⊢
    intro a ha
    rw [calling_callerReady free p ha]
    exact hcallers a ha
  have hlength : (calling w m x p).members.length = w.members.length := List.length_set
  unfold nextTurn
  have hactive : (calling w m x p).active = w.active ++ [(m, mainThread)] := rfl
  rw [hactive, List.find?_append, hothers, Option.none_or]
  cases hready : (calling w m x p).callerReady m mainThread with
  | true => simp [hready]
  | false =>
    simp only [List.find?_cons, hready, List.find?_nil, hlength, calling_workerReady free p]
    rw [hworkers]
    rfl

theorem calling_member (free : Free w m x) (p : Progress) :
    (calling w m x p).members[m]? = some { x with state := x.state.set mainThread p } :=
  setMember_self free.member

theorem calling_ready (free : Free w m x) (p : Progress) :
    (calling w m x p).callerReady m mainThread =
      decide (Logger.CallerCanStep (x.state.set mainThread p) mainThread p) := by
  simp only [callerReady, calling_member free p]
  have hself : (x.state.set mainThread p).callers mainThread = p := by
    rw [Logger.set_callers, update_same]
  exact decide_eq_decide.mpr (by rw [Logger.Enabled, hself])

theorem calling_set (w : World) (m : Nat) (x : Member) (p q : Progress) :
    (calling w m x p).setMember m
        { x with state := (x.state.set mainThread p).set mainThread q } =
      calling w m x q := by
  have hcallers : update (update x.state.callers mainThread p) mainThread q =
      update x.state.callers mainThread q := update_update _ _ _ _
  have hstate : (x.state.set mainThread p).set mainThread q = x.state.set mainThread q :=
    congrArg (fun callers => { x.state with callers }) hcallers
  have hmembers : (w.members.set m { x with state := x.state.set mainThread p }).set m
      { x with state := x.state.set mainThread q } =
      w.members.set m { x with state := x.state.set mainThread q } := List.set_set _
  rw [hstate]
  exact congrArg (fun members => { w with members, active := w.active ++ [(m, mainThread)] })
    hmembers

theorem mute_settled (free : Free w m x) (low : x.state.options.loggable l.priority = false) :
    settled (calling w m x (.deciding i l)) = calling w m x (.done (.returned .none) 0) := by
  -- The call takes two turns: the decision, and the one in which nobody can go on.
  obtain ⟨k, hk⟩ : ∃ k, patience = k + 2 := ⟨19998, rfl⟩
  have hfirst : (calling w m x (.deciding i l)).nextTurn [] = some (.caller m mainThread) := by
    rw [calling_turn free, calling_ready free]
    rfl
  have hlast : (calling w m x (.done (.returned .none) 0)).nextTurn [] = none := by
    rw [calling_turn free, calling_ready free]
    rfl
  have hturn : (calling w m x (.deciding i l)).callerTurn m mainThread =
      calling w m x (.done (.returned .none) 0) := by
    have hdrop := Program.drop_turn (calling_member free (.deciding i l)) (update_same _ _ _) low
    exact hdrop.trans (calling_set w m x _ _)
  rw [settled, hk, settle, hfirst]
  dsimp only
  rw [hturn, settle, hlast]

theorem calling_collected (free : Free w m x) (outcome : Outcome) (looks : Nat) :
    (calling w m x (.done outcome looks)).collect m mainThread = (w, some outcome) := by
  have hself : (x.state.set mainThread (.done outcome looks)).callers mainThread =
      .done outcome looks := by
    rw [Logger.set_callers, update_same]
  have houtcome : (calling w m x (.done outcome looks)).outcomeOf? m mainThread =
      some outcome := by
    simp only [outcomeOf?, calling_member free, hself]
  have hevent := Program.event_set (calling_member free (.done outcome looks))
    (.collect mainThread) rfl
  have hidle : x.state.set mainThread .idle = x.state := by
    have hcallers : update x.state.callers mainThread .idle = x.state.callers :=
      update_eq_self free.idle
    exact congrArg (fun callers => { x.state with callers }) hcallers
  have hmembers : w.members.set m x = w.members := (set_same free.member).symm
  have hactive : (w.active ++ [(m, mainThread)]).filter (· != (m, mainThread)) = w.active := by
    rw [List.filter_append, List.filter_eq_self.mpr]
    · simp
    · intro a ha
      exact bne_iff_ne.mpr fun h => free.away (h ▸ ha)
  rw [collect, houtcome]
  dsimp only
  rw [hevent, calling_set, calling, hidle]
  dsimp only [setMember]
  rw [hactive, hmembers]

theorem mute_call (free : Free w m x) {format : Value} {args : List Value}
    (call : i.call = .leveled l format args)
    (low : x.state.options.loggable l.priority = false) :
    w.callMain m i = (w, some (.returned .none)) := by
  have hbegin : Logger.begin i = .deciding i l := by rw [Logger.begin, call]
  have hcalling : w.begin m mainThread i = calling w m x (.deciding i l) := by
    have hevent := Program.event_set free.member (.start mainThread i)
      (congrArg (x.state.set mainThread) hbegin)
    rw [begin, hevent]
    rfl
  rw [callMain, hcalling, mute_settled free low, calling_collected free]

end

/-- What a session may leave out: a leveled call by the free main thread, below the threshold. -/
inductive Mute (w : World) : Action → Prop where
  | call {name method args stack streams m x l format rest} (named : w.index? name = some m)
      (asks : Request.ofMethod method args = .ok (.perform (.leveled l format rest)))
      (free : Free w m x) (low : x.state.options.loggable l.priority = false) :
      Mute w (.call name method args stack streams)

theorem mute_perform {w : World} {a : Action} (h : Mute w a) : w.perform a = (w, done) := by
  cases h with
  | @call name method args stack streams m x l format rest named asks free low =>
    have hcall := mute_call (i := ⟨.leveled l format rest, stack, streams, w.host⟩) free rfl low
    simp only [perform, named, call, asks, request, hcall]
    rfl

def session : Machine World Action := ⟨fun _ _ => True, fun w a => (w.perform a).1⟩

def omitting : Machine World (Action × Bool) :=
  ⟨fun w a => a.2 = true → Mute w a.1, fun w a => (w.perform a.1).1⟩

def keptAction (_ : World) (a : Action × Bool) : List Action := if a.2 then [] else [a.1]

def answers (w : World) (a : Action) : List Answer := [(w.perform a).2]

def otherAnswers (w : World) (a : Action × Bool) : List Answer :=
  if a.2 then [] else answers w a.1

structure UnnoticedSession (w : World) (as : List (Action × Bool)) : Prop where
  same : session.after w (omitting.history keptAction w as) = omitting.after w as
  answers : session.history answers w (omitting.history keptAction w as) =
    omitting.history otherAnswers w as
  /-- What is left out changes nothing, and answers none. -/
  silent : ∀ before a rest, as = before ++ (a, true) :: rest →
    (omitting.after w before).perform a = (omitting.after w before, done)

theorem omitting_step {w : World} {a : Action × Bool} (h : omitting.Enabled w a) :
    session.after w (keptAction w a) = omitting.next w a := by
  unfold keptAction
  split
  · exact (congrArg Prod.fst (mute_perform (h ‹_›))).symm
  · rfl

theorem session_unnoticed {w : World} {as : List (Action × Bool)} (h : omitting.Valid w as) :
    UnnoticedSession w as := by
  have hvalid : ∀ (v : World) (fs : List Action), session.Valid v fs := by
    intro v fs
    induction fs generalizing v with
    | nil => trivial
    | cons a fs ih => exact ⟨trivial, ih _⟩
  have hrun : session.Valid (id w) (omitting.history keptAction w as) ∧
      session.after (id w) (omitting.history keptAction w as) = id (omitting.after w as) :=
    Machine.run_simulated (fun _ _ _ (_ : True) => trivial)
      (fun v a _ (_ : True) ha => ⟨hvalid _ _, omitting_step ha⟩) trivial h fun _ _ => trivial
  have hanswers : session.history answers (id w) (omitting.history keptAction w as) =
      omitting.history otherAnswers w as :=
    Machine.history_simulated (fun _ _ _ (_ : True) => trivial)
      (fun v a _ (_ : True) ha => omitting_step ha)
      (fun v a _ _ _ => by unfold keptAction otherAnswers; split <;> rfl) trivial h
      fun _ _ => trivial
  refine ⟨hrun.2, hanswers, ?_⟩
  rintro before a rest rfl
  obtain ⟨-, hmute, -⟩ := (omitting.valid_append _ _ _).mp h
  exact mute_perform (hmute rfl)

end World

namespace Logger

/-- What a leveled call has handed off, by how its level compared to the threshold when that was
read. -/
inductive HandsOff (states : List (Stamp × Event) → State) (t : Thread) (i : Invocation)
    (l : Level) (message : Render (List CodePoint)) (during : List (Stamp × Event))
    (new : List (List CodePoint)) : Prop where
  | suppressed {d now rest} (decided : during = d ++ (now, .caller t) :: rest)
      (deciding : (states d).callers t = .deciding i l)
      (low : (states d).options.loggable l.priority = false) (nothing : new = [])
  | passed {d now rest} (decided : during = d ++ (now, .caller t) :: rest)
      (deciding : (states d).callers t = .deciding i l)
      (high : (states d).options.loggable l.priority = true) (atMost : new.length ≤ 1)
      (one : new.length = 1 ↔ ∃ m, message.outcome = .ok m ∧ m ≠ [])

theorem linesOf_length (r : Render (List CodePoint)) (f : Flags) (now : Stamp) (stack : Stack)
    (p : Priority) (tells : Bool) :
    let ls := Direct.linesOf (r.outcome.map (Direct.lineOf f now stack p tells))
    ls.length ≤ 1 ∧ (ls.length = 1 ↔ ∃ m, r.outcome = .ok m ∧ m ≠ []) := by
  cases hr : r.outcome with
  | error fault => simp [Except.map, Direct.linesOf]
  | ok m =>
    by_cases hm : m = [] <;> simp [Except.map, Direct.linesOf, Direct.lineOf, hm]

/-- A leveled call that has ended has handed off one line if it was let through and had something
to say, and else none. -/
theorem call_hands_off {number : Nat} {mode : Mode} {o : Options}
    {before during : List (Stamp × Event)} {n : Stamp} {t : Thread} {i : Invocation} {l : Level}
    {format : Value} {args : List Value}
    (h : machine.Valid (initial number mode o) (before ++ (n, .start t i) :: during))
    (call : i.call = .leveled l format args) (quiet : started t during = [])
    (ended : Finished
      ((machine.after (initial number mode o) (before ++ (n, .start t i) :: during)).callers t)) :
    let states d := machine.after (initial number mode o) (before ++ (n, .start t i) :: d)
    ∃ new, ofThread t (states during).handedOff =
        ofThread t (machine.after (initial number mode o) before).handedOff ++ new ∧
      HandsOff states t i l (message i.host.room format args) during new := by
  intro states
  obtain ⟨hbefore, hstart, -⟩ := (machine.valid_append _ _ _).mp h
  have hpending : ((states during).callers t).pending = [] := by
    cases hp : (states during).callers t with
    | deciding | composing =>
      rw [hp] at ended
      exact ended.elim False.elim False.elim
    | _ => rfl
  have hfate := (fares_of_pending hpending).mp (run_fares h ⟨l, format, args, call⟩ quiet)
  have hissued := finished_issued (reachable_sound (reachable_of_valid h)).coupled ended
  have hbase := finished_issued (reachable_sound (reachable_of_valid hbefore)).coupled
    (.inl hstart.2)
  rw [← hbase, ← hissued]
  cases hfate with
  | @dropped l' format' args' d now rest call' decided deciding low nothing =>
    obtain ⟨rfl, rfl, rfl⟩ := Call.leveled.inj (call.symm.trans call')
    exact ⟨[], nothing.trans (List.append_nil _).symm,
      .suppressed decided deciding (decide_eq_false low) rfl⟩
  | @composed l' format' args' d now d' now' rest call' decided deciding high composing line =>
    obtain ⟨rfl, rfl, rfl⟩ := Call.leveled.inj (call.symm.trans call')
    obtain ⟨atMost, one⟩ := linesOf_length (message i.host.room format args)
      (states (d ++ (now, .caller t) :: d')).options.flags now' i.stack l.priority l.tellsSite
    rw [List.append_assoc, List.cons_append] at decided
    exact ⟨_, line, .passed decided deciding (decide_eq_true high) atMost one⟩

end Logger

open Program (Unnoticed pruning nobody) in
structure Thresholds : Prop where
  /-- In a program with any number of threads, each at any of its loggers, calls that come out below
  the threshold can be left out. -/
  runs : ∀ w es, World.Fresh w → pruning.Valid ⟨w, nobody⟩ es → Unnoticed w es
  /-- So they can in a session, whatever handlers and destinations call in turn. -/
  sessions : ∀ w as, World.omitting.Valid w as → World.UnnoticedSession w as
  handsOff : ∀ number mode o before n t i l format args during,
    Logger.machine.Valid (Logger.initial number mode o) (before ++ (n, .start t i) :: during) →
    i.call = .leveled l format args → Logger.started t during = [] →
    let states d :=
      Logger.machine.after (Logger.initial number mode o) (before ++ (n, .start t i) :: d)
    Logger.Finished ((states during).callers t) →
    ∃ new, Logger.ofThread t (states during).handedOff =
        Logger.ofThread t (Logger.machine.after (Logger.initial number mode o) before).handedOff ++
          new ∧
      Logger.HandsOff states t i l (message i.host.room format args) during new

theorem suppressed_calls_unnoticed : Thresholds where
  runs _ _ fresh h := Program.pruned_unnoticed fresh h
  sessions _ _ h := World.session_unnoticed h
  handsOff _ _ _ _ _ _ _ _ _ _ _ h call quiet ended := Logger.call_hands_off h call quiet ended

namespace Program

def spy : Value := .list [.probe ⟨"x", "x", some .wrongValue, some .wrongValue⟩]

def opening : List Event :=
  .make (.outlet (Outlet.plain "a" .text)) ⟨.priority .info, .text "", .flags .empty⟩ ::
    List.replicate 3 (.worker 0)

def chatter : List Marked :=
  let main : Thread := .caller 0
  let begins (l : Level) (args : List Value) : Event :=
    .start 0 main ⟨.leveled l (.text "%s") args, [], [], .usual⟩
  let others (es : List Event) : List Marked := es.map fun e => ⟨e, false⟩
  others (opening ++ [begins .info [.text "a"]] ++ List.replicate 7 (.caller 0 main) ++
      List.replicate 2 (.worker 0) ++ List.replicate 4 (.caller 0 main) ++ [.collect 0 main]) ++
    [⟨begins .debug [spy], true⟩] ++ others [.worker 0, .caller 0 main, .worker 0] ++
    others [.collect 0 main]

def resting : World := { machine.after World.bareProgram opening with names := [("a", 0)] }

def murmur : List (Action × Bool) :=
  [(.call "a" "debug" ⟨[.text "%s", spy], []⟩ [] [], true),
    (.call "a" "info" ⟨[.text "a"], []⟩ [] [], false)]

theorem murmur_valid : World.omitting.Valid resting murmur := by
  have hsome : (resting.members[0]?.any fun x =>
      !x.state.options.loggable Level.debug.priority &&
        decide (Logger.IsIdle (x.state.callers World.mainThread))) = true := by
    decide +kernel
  obtain ⟨x, hx, htests⟩ := Option.any_eq_true _ _ |>.mp hsome
  obtain ⟨hlow, hidle⟩ := Bool.and_eq_true_iff.mp htests
  have free : World.Free resting 0 x :=
    ⟨hx, by decide +kernel, Logger.isIdle_iff.mp (of_decide_eq_true hidle), by decide +kernel⟩
  have low : x.state.options.loggable Level.debug.priority = false := by
    simpa using hlow
  exact ⟨fun _ => .call rfl rfl free low, ⟨nofun, trivial⟩⟩

def saying : Invocation := ⟨.leveled .info (.text "a") [], [], [], .usual⟩

def said : List (Stamp × Logger.Event) :=
  let step (k : Nat) : List Logger.Event := List.replicate k (.caller (.caller 0))
  let work (k : Nat) : List Logger.Event := List.replicate k (.worker none)
  (work 3 ++ step 7 ++ work 2 ++ step 4).map (World.bareProgram.clock, ·)

/-- The call is left out of a run, and of a session; the other one hands off its line. -/
theorem chatter_suppressed :
    ((pruning.after ⟨World.bareProgram, nobody⟩ chatter).world.members.map
        fun x => x.state.attempts) = [[Text.points "<2>:a\n".toList]] ∧
      (pruning.after ⟨World.bareProgram, nobody⟩ chatter).world.looks = 0 ∧
      (remaining World.bareProgram chatter).length + 3 = chatter.length ∧
      Unnoticed World.bareProgram chatter ∧ World.UnnoticedSession resting murmur ∧
      (World.omitting.after resting murmur).members.map (fun x => x.state.attempts) =
        [[Text.points "<2>:a\n".toList]] ∧
      ∃ new, Logger.HandsOff
        (fun d => Logger.machine.after (Logger.initial 1 .text Logger.infoOnly)
          ((World.bareProgram.clock, .start (.caller 0) saying) :: d))
        (.caller 0) saying .info (message .usual (.text "a") []) said new := by
  have hvalid : pruning.Valid ⟨World.bareProgram, nobody⟩ chatter := by decide +kernel
  obtain ⟨new, -, handsOff⟩ := suppressed_calls_unnoticed.handsOff 1 .text Logger.infoOnly []
    World.bareProgram.clock (.caller 0) saying .info (.text "a") [] said (by decide +kernel) rfl
    (by decide +kernel) (.inr (by decide +kernel))
  exact ⟨by decide +kernel, by decide +kernel, by decide +kernel,
    suppressed_calls_unnoticed.runs _ _ ⟨rfl, rfl⟩ hvalid,
    suppressed_calls_unnoticed.sessions _ _ murmur_valid, by decide +kernel, new, handsOff⟩

end Program

end LeveledLog
