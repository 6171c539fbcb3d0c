import LeveledLog.Proofs.Program.Changes
import LeveledLog.Proofs.Program.Intake

/-!
Programs that go on in turns. A worker's turn takes with it whatever the destination or the handler
of a notice calls meanwhile. Where notices go to no logger and no outlet calls back, it is one step,
so a program that goes on in turns goes on in small steps and comes to the same, and so does one
that is left alone until nobody can go on.
-/

namespace LeveledLog

/-- No calls are noted as begun. -/
def Change.idle : Change where
  state _ s := s
  looks := 0
  notices := []
  active _ := []
  number _ _ := rfl
  worker _ _ := rfl

namespace World

/-- No outlet calls a logger while it is written to. -/
def Plain (w : World) : Prop := ∀ o ∈ w.outlets, o.reentrant = false

section

variable {w v : World} {m : Nat} {t : Thread} {x : Member} {o : Outlet} {e : Event}
  {es : List Event}

theorem changed_idle (w : World) : w.changed .idle = { w with active := [] } := by
  have hmembers : (w.changed .idle).members = w.members :=
    List.ext_getElem? fun m => (changed_member w m).trans Option.map_id'
  have hlooks : 0 + w.looks = w.looks := Nat.zero_add w.looks
  calc
    w.changed .idle = { w with
      members := (w.changed .idle).members, active := [], looks := 0 + w.looks } := rfl
    _ = { w with active := [] } := by rw [hmembers, hlooks]

theorem eq_of_idle (h : w.changed .idle = v.changed .idle) :
    ∃ active, w = { v with active } := by
  rw [changed_idle, changed_idle] at h
  exact ⟨w.active, congrArg (fun u => { u with active := w.active }) h⟩

/-! ### Outlets that call nobody -/

theorem Plain.of_outlets (h : w.Plain) (same : v.outlets = w.outlets) : v.Plain := by
  unfold Plain
  rw [same]
  exact h

theorem Plain.setOutlet (h : w.Plain) (ho : o.reentrant = false) : (w.setOutlet o).Plain := by
  intro p hp
  obtain ⟨q, hq, rfl⟩ := List.mem_map.mp hp
  split
  · exact ho
  · exact h q hq

theorem Plain.outlet (h : w.Plain) {name : String} (ho : w.outlet? name = some o) :
    o.reentrant = false := h o (List.mem_of_find?_eq_some ho)

theorem Plain.reentered (h : w.Plain) (x : Member) : w.reentered? x = none := by
  unfold reentered?
  split
  · split
    · rename_i o ho
      rw [if_neg (by rw [h.outlet ho]; decide)]
    · rfl
  · rfl

theorem Plain.provide (h : w.Plain) (ho : o.reentrant = false) : (w.provide o).Plain := by
  unfold World.provide
  split
  · exact h
  · intro p hp
    rcases List.mem_append.mp hp with hold | hnew
    · exact h p hold
    · rw [List.mem_singleton.mp hnew]
      exact ho

theorem Plain.onOutlet (h : w.Plain) (name : String) (a : Wanted) :
    (w.onOutlet name a).1.Plain := by
  rcases onOutlet_cases w name a with ⟨o, v, m, ho, -, hadd, hmade⟩ | ⟨looks, f, hfailed⟩
  · have hadded := w.addWith_outlets (a.options w.host) (.outlet name)
    rw [hadd] at hadded
    have hquiet : o.reentrant = false := h.outlet ho
    rw [hmade]
    exact (h.of_outlets hadded).setOutlet hquiet
  · rw [hfailed]
    exact h

theorem Plain.onSettings (h : w.Plain) (s : Settings) : (w.onSettings s).1.Plain := by
  unfold World.onSettings
  split
  · exact h.onOutlet _ _
  · split
    · exact h.of_outlets (onSyslog_outlets w _ _ _)
    · exact h.of_outlets (onFile_outlets w _ _)

theorem Plain.construct (h : w.Plain) (alone : w.target = none) {source : Source}
    (quiet : ∀ o, source = .outlet o → o.reentrant = false) (a : Wanted) :
    (w.construct source a).1.Plain := by
  cases source with
  | outlet o => exact (h.provide (quiet o rfl)).onOutlet o.name a
  | file path => exact h.of_outlets (onFile_outlets w path a)
  | syslog address ident => exact h.of_outlets (onSyslog_outlets w address ident a)
  | named name =>
    have hfile := h.of_outlets (onFile_outlets w name { a with linePrefix := .text "" })
    rw [World.construct]
    unfold onNamed
    split
    · exact hfile
    · split
      · exact h
      · split
        · exact h.of_outlets (onSyslog_outlets w _ _ a)
        · exact hfile
  | settings given =>
    obtain ⟨looks, hread⟩ := render_eq w (Settings.load .standard ⟨given, w.environment⟩)
    rw [World.construct, hread]
    split
    · rename_i u f hfailed
      obtain ⟨rfl, -⟩ := Prod.mk.inj hfailed
      exact h
    · rename_i u s hloaded
      obtain ⟨rfl, -⟩ := Prod.mk.inj hloaded
      obtain ⟨notices, hnotices⟩ := announceSettings_notices (w := { w with looks }) alone s
      rw [hnotices]
      exact Plain.onSettings (w := { w with looks, notices }) h s

theorem Plain.write (h : w.Plain) (hx : w.members[m]? = some x) (line : List CodePoint) :
    (w.write m line).1.Plain := by
  cases hd : x.destination with
  | outlet name =>
    cases ho : w.outlet? name with
    | none =>
      simp only [World.write, hx, hd, ho]
      exact h
    | some o =>
      have hquiet : (o.write line).1.reentrant = o.reentrant := by
        unfold Outlet.write
        dsimp only
        split <;> rfl
      rw [write_outlet hx hd ho]
      exact h.setOutlet (hquiet.trans (h.outlet ho))
  | file f =>
    simp only [World.write, hx, hd]
    exact h
  | syslog s =>
    obtain ⟨looks, network, hwritten⟩ := write_syslog hx hd line
    rw [hwritten]
    exact h

theorem Plain.flush (h : w.Plain) (m : Nat) : (w.flush m).1.Plain := by
  unfold World.flush
  split
  · split
    · exact h
    · rename_i o ho
      have hquiet : o.flushOnce.1.reentrant = o.reentrant := by
        unfold Outlet.flushOnce
        split
        · rfl
        · rfl
        · dsimp only
          split <;> rfl
      exact h.setOutlet (hquiet.trans (h.outlet ho))
  · exact h

theorem Plain.workerStep (h : w.Plain) (m : Nat) : (w.workerStep m).Plain := by
  unfold World.workerStep
  split
  · exact h
  · rename_i x hx
    have hserved : (w.service m x).1.Plain := by
      unfold service
      split
      · exact h
      · exact h
      · exact h.write hx _
      · exact h.flush m
      · obtain ⟨looks, notices, hreported⟩ := reported_frame w x ‹_›
        rw [hreported]
        exact h
    exact hserved.of_outlets (event_outlets _ m _)

/-! ### One turn -/

theorem worker_turn_step (fuel : Nat) (busy : List Nat) (alone : w.target = none) (h : w.Plain)
    (m : Nat) : workerTurn (fuel + 2) busy w m = w.workerStep m := by
  rw [workerTurn, workerStep]
  cases hx : w.members[m]? with
  | none => rfl
  | some x =>
    dsimp only
    rw [service]
    cases hphase : x.state.worker with
    | receiving => rfl
    | ended lost =>
      have hended := event_ended hx hphase
      exact hended.symm
    | writing line => simp only [h.reentered x]
    | flushing line => rfl
    | reporting d =>
      obtain ⟨looks, hlooks⟩ := report_looks w x d
      have halone : (w.reportMessage x d).1.target = none := by rw [hlooks]; exact alone
      dsimp only [reported]
      split
      · rw [announce_alone halone]
      · rfl

/-- The small step that an event is. -/
def Event.step : Event → Program.Event
  | .make source a => .make source a
  | .setClock t => .setClock t
  | .permit outlet n => .permit outlet n
  | .start m t i => .start m t i
  | .caller m t => .caller m t
  | .worker m => .worker m
  | .collect m t => .collect m t

/-- No logger is made on an outlet that calls it back. -/
def Event.Quiet : Event → Prop
  | .make (.outlet o) _ => o.reentrant = false
  | _ => True

theorem step_enabled (he : Enabled w e) : Program.Enabled w e.step := by
  cases e with
  | collect m t =>
    change (w.outcomeOf? m t).isSome = true at he
    change w.takes m (.collect t) = true
    unfold outcomeOf? at he
    unfold takes
    cases hx : w.members[m]? with
    | none =>
      rw [hx] at he
      cases he
    | some x =>
      rw [hx] at he
      dsimp only at he ⊢
      split at he
      · rename_i hdone
        exact decide_eq_true (Logger.isDone_iff.mpr ⟨_, _, hdone⟩)
      · cases he
  | make | setClock | permit => trivial
  | start m t i => exact he
  | caller m t => exact he
  | worker m => exact he

theorem step_next (alone : w.target = none) (h : w.Plain) (he : Enabled w e) :
    (next w e).changed .idle = (Program.next w e.step).changed .idle := by
  cases e with
  | make | setClock | permit => rfl
  | start m t i => rfl
  | caller m t => rfl
  | worker m => exact congrArg _ (worker_turn_step _ [] alone h m)
  | collect m t =>
    obtain ⟨outcome, houtcome⟩ := Option.isSome_iff_exists.mp he
    rw [next, collect, houtcome]
    rfl

theorem Plain.grant (h : w.Plain) (outlet : String) (n : Nat) : (w.grant outlet n).Plain := by
  unfold World.grant
  split
  · rename_i o ho
    have hquiet : o.reentrant = false := h.outlet ho
    exact h.setOutlet hquiet
  · exact h

theorem Plain.next (h : w.Plain) (alone : w.target = none) (quiet : e.Quiet) :
    (next w e).Plain := by
  cases e with
  | make source a =>
    refine h.construct alone (fun o ho => ?_) a
    subst ho
    exact quiet
  | setClock t => exact h
  | permit outlet n => exact h.grant outlet n
  | start m t i => exact h.of_outlets (event_outlets w m _)
  | caller m t => exact h.of_outlets (event_outlets w m _)
  | worker m =>
    have hturn : World.next w (.worker m) = w.workerStep m := worker_turn_step _ [] alone h m
    rw [hturn]
    exact h.workerStep m
  | collect m t =>
    change (w.collect m t).1.Plain
    unfold collect
    split
    · exact h
    · exact h.of_outlets (event_outlets w m _)

/-! ### Runs -/

/-- Programs that differ in which calls are noted as begun go on alike. -/
theorem idle_alike (hw : w.shape.Sound) (hv : v.shape.Sound)
    (h : w.changed .idle = v.changed .idle) (es : List Program.Event) :
    (Program.machine.Valid w es ↔ Program.machine.Valid v es) ∧
      (Program.machine.after w es).changed .idle = (Program.machine.after v es).changed .idle := by
  have hrun : ∀ u : World, u.shape.Sound →
      (Program.machine.Valid (u.changed .idle) es ↔ Program.machine.Valid u es) ∧
        Program.machine.after (u.changed .idle) es =
          (Program.machine.after u es).changed .idle := by
    intro u hu
    refine Program.run_changed hu (fun _ _ _ _ _ => rfl) fun _ _ _ _ _ _ _ _ _ => ?_
    exact ⟨Iff.rfl, rfl, fun _ _ _ => rfl, fun _ _ => rfl⟩
  obtain ⟨hvalidw, hafterw⟩ := hrun w hw
  obtain ⟨hvalidv, hafterv⟩ := hrun v hv
  constructor
  · rw [← hvalidw, ← hvalidv, h]
  · rw [← hafterw, ← hafterv, h]

theorem run_steps_idle (hs : w.shape.Sound) (h : w.Plain) (valid : machine.Valid w es)
    (quiet : ∀ e ∈ es, e.Quiet) : Program.machine.Valid w (es.map Event.step) ∧
      (Program.machine.after w (es.map Event.step)).changed .idle =
        (machine.after w es).changed .idle := by
  induction es generalizing w with
  | nil => exact ⟨trivial, rfl⟩
  | cons e es ih =>
    have hplain := h.next hs.alone (quiet e List.mem_cons_self)
    obtain ⟨hvalid, hafter⟩ := ih (next_sound hs e) hplain valid.2
      fun e' he' => quiet e' (List.mem_cons_of_mem e he')
    -- The turn and the step may note different calls as begun, which the rest does not see.
    have hstep := step_next hs.alone h valid.1
    obtain ⟨hvalid', hafter'⟩ :=
      idle_alike (next_sound hs e) (Program.next_sound hs e.step) hstep (es.map Event.step)
    exact ⟨⟨step_enabled valid.1, hvalid'.mp hvalid⟩, hafter'.symm.trans hafter⟩

/-- A run in turns is a run in small steps, and comes to the same. -/
theorem run_steps (hs : w.shape.Sound) (h : w.Plain) (valid : machine.Valid w es)
    (quiet : ∀ e ∈ es, e.Quiet) : Program.machine.Valid w (es.map Event.step) ∧
      ∃ active, Program.machine.after w (es.map Event.step) =
        { machine.after w es with active } := by
  obtain ⟨hvalid, hafter⟩ := run_steps_idle hs h valid quiet
  exact ⟨hvalid, eq_of_idle hafter⟩

/-! ### Left alone -/

def Turn.step : Turn → Program.Event
  | .caller m t => .caller m t
  | .worker m => .worker m

theorem next_turn_enabled {busy : List Nat} {turn : Turn} (h : w.nextTurn busy = some turn) :
    Program.Enabled w turn.step := by
  unfold nextTurn at h
  split at h
  · rename_i m t hfind
    obtain rfl := Option.some.inj h
    have hready := List.find?_some hfind
    exact hready
  · obtain ⟨m, hfind, rfl⟩ := Option.map_eq_some_iff.mp h
    have hready := List.find?_some hfind
    exact (Bool.and_eq_true_iff.mp hready).2

theorem settle_step (fuel : Nat) {busy : List Nat} {turn : Turn} (alone : w.target = none)
    (h : w.Plain) (hturn : w.nextTurn busy = some turn) :
    settle (fuel + 3) busy w = settle (fuel + 2) busy (Program.next w turn.step) := by
  rw [settle, hturn]
  cases turn with
  | caller m t => rfl
  | worker m =>
    dsimp only
    rw [worker_turn_step fuel busy alone h m]
    rfl

theorem Plain.turn (h : w.Plain) (turn : Turn) : (Program.next w turn.step).Plain := by
  cases turn with
  | caller m t => exact h.of_outlets (event_outlets w m _)
  | worker m => exact h.workerStep m

/-- A program left alone goes on in small steps, until nobody can or as many turns have passed. -/
theorem settle_turns (fuel : Nat) (busy : List Nat) (hs : w.shape.Sound) (h : w.Plain) :
    ∃ turns : List Turn, Program.machine.Valid w (turns.map Turn.step) ∧
      settle (fuel + 2) busy w =
        settle 2 busy (Program.machine.after w (turns.map Turn.step)) ∧
      ((Program.machine.after w (turns.map Turn.step)).nextTurn busy = none ∨
        turns.length = fuel) := by
  induction fuel generalizing w with
  | zero => exact ⟨[], trivial, rfl, .inr rfl⟩
  | succ fuel ih =>
    cases hturn : w.nextTurn busy with
    | none =>
      refine ⟨[], trivial, ?_, .inl hturn⟩
      have hstays : ∀ k, settle (k + 1) busy w = w := by
        intro k
        rw [settle, hturn]
      exact (hstays (fuel + 2)).trans (hstays 1).symm
    | some turn =>
      obtain ⟨turns, hvalid, hsettle, hend⟩ := ih (Program.next_sound hs turn.step) (h.turn turn)
      refine ⟨turn :: turns, ⟨next_turn_enabled hturn, hvalid⟩, ?_, ?_⟩
      · exact (settle_step fuel hs.alone h hturn).trans hsettle
      · exact hend.imp_right fun hlength => congrArg (· + 1) hlength

/-- Unless it takes too many turns, a program left alone comes in small steps to where nobody can go
on. -/
theorem settled_turns (hs : w.shape.Sound) (h : w.Plain) :
    ∃ turns : List Turn, Program.machine.Valid w (turns.map Turn.step) ∧
      (turns.length + 2 < patience →
        w.settled = Program.machine.after w (turns.map Turn.step) ∧
          w.settled.nextTurn [] = none) := by
  obtain ⟨turns, hvalid, hsettle, hend⟩ := settle_turns (patience - 2) [] hs h
  refine ⟨turns, hvalid, fun hfew => ?_⟩
  have hdone : (Program.machine.after w (turns.map Turn.step)).nextTurn [] = none :=
    hend.resolve_right (by omega)
  have hsettled : w.settled = Program.machine.after w (turns.map Turn.step) :=
    hsettle.trans (by rw [settle, hdone])
  rw [hsettled]
  exact ⟨rfl, hdone⟩

end

end World

end LeveledLog
