import LeveledLog.Proofs.Program.Machine
import LeveledLog.Proofs.World.Opening

/-!
Programs that differ in what nobody looks at. A change is made to each logger by itself; besides,
more may have been looked at, more may have been noticed, and other calls may be noted as begun.
What happens in a program happens alike in the changed one if the logger that it happens at does not
see the change, and it leaves the one program changed into the other.
-/

namespace LeveledLog

namespace Logger

/-- A change of loggers that a logger does not see in an event. -/
structure Unseen (f : State → State) (now : Stamp) (s : State) (e : Event) : Prop where
  enabled : Enabled (f s) e ↔ Enabled s e
  next : next now (f s) e = f (next now s e)
  caller : ∀ t, e.caller? = some t → ∀ u, (f u).callers t = u.callers t
  own : ∀ i, e = .ownCall i → (ownCall (f s) now i).2 = (ownCall s now i).2

end Logger

/-- A change to the loggers of a program, which leaves what their workers do, and looks and notices
that have come before. -/
structure Change where
  state : Nat → Logger.State → Logger.State
  looks : Nat
  notices : List Notice
  active : List (Nat × Thread) → List (Nat × Thread) := id
  number : ∀ m s, (state m s).number = s.number
  worker : ∀ m s, (state m s).worker = s.worker

def Change.only (m : Nat) (f : Logger.State → Logger.State) (number : ∀ s, (f s).number = s.number)
    (worker : ∀ s, (f s).worker = s.worker) : Change where
  state k s := if k = m then f s else s
  looks := 0
  notices := []
  number k s := by
    split
    · exact number s
    · rfl
  worker k s := by
    split
    · exact worker s
    · rfl

def Member.changed (f : Logger.State → Logger.State) (x : Member) : Member :=
  { x with state := f x.state }

namespace World

def changed (c : Change) (w : World) : World :=
  { w with
    members := w.members.mapIdx fun m x => x.changed (c.state m)
    active := c.active w.active
    looks := c.looks + w.looks
    notices := c.notices ++ w.notices }

def changedIn {α : Type} (c : Change) (p : World × α) : World × α := (p.1.changed c, p.2)

def New (c : Change) (w : World) : Prop :=
  ∀ m n mode o, w.members.length ≤ m →
    c.state m (Logger.initial n mode o) = Logger.initial n mode o

section

variable {c : Change} {w : World} {m : Nat} {t : Thread} {x : Member} {α : Type}

theorem changed_member (w : World) (m : Nat) :
    (w.changed c).members[m]? = (w.members[m]?).map (Member.changed (c.state m)) := by
  simp [changed, List.getElem?_mapIdx]

theorem changed_setMember (w : World) (m : Nat) (y : Member) :
    (w.changed c).setMember m (y.changed (c.state m)) = (w.setMember m y).changed c := by
  have hmembers : (w.changed c).members.set m (y.changed (c.state m)) =
      (w.members.set m y).mapIdx fun m x => x.changed (c.state m) := List.mapIdx_set.symm
  exact congrArg (fun members => { w.changed c with members }) hmembers

theorem changed_looks (w : World) (k : Nat) :
    { w.changed c with looks := (w.changed c).looks + k } =
      changed c { w with looks := w.looks + k } :=
  congrArg (fun looks => { w.changed c with looks }) (Nat.add_assoc _ _ _)

theorem changed_render (w : World) (r : Render α) :
    (w.changed c).render r = changedIn c (w.render r) :=
  congrArg (fun u => (u, (r.run.run 0).1)) (changed_looks w (r.run.run 0).2)

theorem changed_note (w : World) (n : Notice) : (w.changed c).note n = (w.note n).changed c :=
  congrArg (fun notices => { w.changed c with notices }) (List.append_assoc _ _ _)

/-! ### Steps of loggers -/

theorem changed_takes {e : Logger.Event} (unseen : ∀ x, w.members[m]? = some x →
    Logger.Unseen (c.state m) w.clock x.state e) : (w.changed c).takes m e = w.takes m e := by
  unfold takes
  rw [changed_member]
  cases hx : w.members[m]? with
  | none => rfl
  | some x => exact decide_eq_decide.mpr (unseen x hx).enabled

theorem changed_event {e : Logger.Event} (unseen : ∀ x, w.members[m]? = some x →
    Logger.Unseen (c.state m) w.clock x.state e) :
    (w.changed c).event m e = (w.event m e).changed c := by
  unfold event
  rw [changed_member]
  cases hx : w.members[m]? with
  | none => rfl
  | some x =>
    rw [Option.map_some]
    dsimp only
    rw [← changed_setMember, Member.changed, Member.changed, ← (unseen x hx).next]
    rfl

theorem changed_outcome (w : World) (ht : ∀ u, (c.state m u).callers t = u.callers t) :
    (w.changed c).outcomeOf? m t = w.outcomeOf? m t := by
  unfold outcomeOf?
  rw [changed_member]
  cases w.members[m]? with
  | none => rfl
  | some x => simp only [Option.map_some, Member.changed, ht]

theorem changed_looksOf (w : World) (ht : ∀ u, (c.state m u).callers t = u.callers t) :
    (w.changed c).looksOf m t = w.looksOf m t := by
  unfold looksOf
  rw [changed_member]
  cases w.members[m]? with
  | none => rfl
  | some x => simp only [Option.map_some, Member.changed, ht]

theorem changed_callerTurn (unseen : ∀ x, w.members[m]? = some x →
    Logger.Unseen (c.state m) w.clock x.state (.caller t)) :
    (w.changed c).callerTurn m t = (w.callerTurn m t).changed c := by
  have hevent := changed_event unseen
  cases hx : w.members[m]? with
  | none =>
    have hnone : (w.changed c).members[m]? = none := by rw [changed_member, hx]; rfl
    simp only [callerTurn, event, looksOf, hx, hnone]
    exact changed_looks w _
  | some x =>
    have ht := (unseen x hx).caller t rfl
    rw [callerTurn, hevent, changed_looksOf _ ht, changed_looksOf _ ht]
    exact changed_looks (w.event m (.caller t)) _

theorem changed_ownCall {i : Invocation} (unseen : ∀ x, w.members[m]? = some x →
    Logger.Unseen (c.state m) w.clock x.state (.ownCall i)) :
    (w.changed c).ownCall m i = changedIn c (w.ownCall m i) := by
  have hevent := changed_event unseen
  rw [ownCall, ownCall, changed_member]
  cases hx : w.members[m]? with
  | none => rfl
  | some x =>
    obtain ⟨houtcome, hlooks⟩ := Prod.ext_iff.mp ((unseen x hx).own i rfl)
    have hclock : (w.changed c).clock = w.clock := rfl
    simp only [Option.map_some, Member.changed]
    rw [hclock, hevent, houtcome, hlooks]
    exact congrArg (fun u => (u, some (Logger.ownCall x.state w.clock i).2.1))
      (congrArg (fun looks => { (w.event m (.ownCall i)).changed c with looks })
        (Nat.add_assoc _ _ _))

theorem changed_write (w : World) (m : Nat) (line : List CodePoint) :
    (w.changed c).write m line = changedIn c (w.write m line) := by
  rw [write, write, changed_member]
  cases w.members[m]? with
  | none => rfl
  | some x =>
    obtain ⟨state, d⟩ := x
    cases d with
    | outlet name =>
      have houtlet : (w.changed c).outlet? name = w.outlet? name := rfl
      simp only [Option.map_some, Member.changed, houtlet]
      cases w.outlet? name <;> rfl
    | file f =>
      let written := w.files.write f (Text.encode line)
      have hset := changed_setMember (c := c) { w with files := written.1 } m
        ⟨state, .file written.2⟩
      exact congrArg (fun u => (u, none)) hset
    | syslog s =>
      let r := s.write w.network w.clock (Text.encode line)
      have hnetwork :
        s.write (w.changed c).network (w.changed c).clock (Text.encode line) = r := rfl
      have hwrite : s.write w.network w.clock (Text.encode line) = r := rfl
      simp only [Option.map_some, Member.changed, hnetwork, hwrite, changed_render, changedIn]
      rcases w.render r with ⟨u, _ | ⟨network, _ | _⟩⟩ <;> rfl

theorem changed_flush (w : World) (m : Nat) :
    (w.changed c).flush m = changedIn c (w.flush m) := by
  rw [flush, flush, changed_member]
  cases w.members[m]? with
  | none => rfl
  | some x =>
    obtain ⟨state, d⟩ := x
    cases d with
    | outlet name =>
      have houtlet : (w.changed c).outlet? name = w.outlet? name := rfl
      simp only [Option.map_some, Member.changed, houtlet]
      cases w.outlet? name <;> rfl
    | file f => rfl
    | syslog s => rfl

theorem changed_reportMessage (w : World) (m : Nat) (x : Member) (d : Diagnostic) :
    (w.changed c).reportMessage (x.changed (c.state m)) d =
      changedIn c (w.reportMessage x d) := by
  have hshow : (w.changed c).showDestination x.destination =
      changedIn c (w.showDestination x.destination) := by
    cases x.destination with
    | outlet name => rfl
    | file f => rfl
    | syslog s =>
      rw [showDestination, showDestination, changed_render]
      rcases w.render s.shown with ⟨u, _ | text⟩ <;> rfl
  have hnumber : (x.changed (c.state m)).state.number = x.state.number := c.number m x.state
  have hdestination : (x.changed (c.state m)).destination = x.destination := rfl
  cases d <;>
  · rw [reportMessage, reportMessage, hnumber, hdestination, hshow]
    rfl

theorem changed_reported (w : World) (m : Nat) (x : Member) (d : Diagnostic) :
    (w.changed c).reported (x.changed (c.state m)) d = (w.reported x d).changed c := by
  rw [reported, reported, changed_reportMessage, apply_ite (changed c)]
  dsimp only [changedIn]
  rw [changed_note]
  rfl

theorem changed_service (w : World) (m : Nat) (x : Member) :
    (w.changed c).service m (x.changed (c.state m)) = changedIn c (w.service m x) := by
  have hworker : (x.changed (c.state m)).state.worker = x.state.worker := c.worker m x.state
  rw [service, service, hworker]
  split
  · rfl
  · rfl
  · exact changed_write w m _
  · exact changed_flush w m
  · exact congrArg (fun u => (u, none)) (changed_reported w m x _)

theorem changed_workerReady {outcome : Option Fault} (unseen : ∀ x, w.members[m]? = some x →
    Logger.Unseen (c.state m) w.clock x.state (.worker outcome)) :
    (w.changed c).workerReady m = w.workerReady m := by
  unfold workerReady
  rw [changed_member]
  cases hx : w.members[m]? with
  | none => rfl
  | some x =>
    -- How a step of the worker ends has no part in whether it can happen.
    have hiff : Logger.Enabled (c.state m x.state) (.worker none) ↔
        Logger.Enabled x.state (.worker none) := (unseen x hx).enabled
    have henabled : decide (Logger.Enabled (c.state m x.state) (.worker none)) =
        decide (Logger.Enabled x.state (.worker none)) := decide_eq_decide.mpr hiff
    have hworker : (x.changed (c.state m)).state.worker = x.state.worker := c.worker m x.state
    rw [Option.map_some]
    dsimp only
    rw [hworker]
    exact congrArg (· && _) henabled

theorem changed_workerStep (hs : w.shape.Sound) (unseen : ∀ x, w.members[m]? = some x →
    Logger.Unseen (c.state m) w.clock x.state (.worker (w.service m x).2)) :
    (w.changed c).workerStep m = (w.workerStep m).changed c := by
  rw [workerStep, workerStep, changed_member]
  cases hx : w.members[m]? with
  | none => rfl
  | some x =>
    rw [Option.map_some]
    dsimp only
    rw [changed_service]
    refine changed_event fun y hy => ?_
    obtain ⟨d, hmembers⟩ := service_member hx
    have hself : (w.service m x).1.members[m]? = some { x with destination := d } := by
      rw [hmembers]
      exact setMember_self (w := w) hx
    obtain rfl := Option.some.inj (hself.symm.trans hy)
    have hclock : (w.service m x).1.clock = w.clock := congrArg Shape.clock (service_shape hs m x)
    rw [hclock]
    exact unseen x hx

/-! ### What happens beside loggers -/

theorem changed_grant (w : World) (outlet : String) (n : Nat) :
    (w.changed c).grant outlet n = (w.grant outlet n).changed c := by
  have houtlet : (w.changed c).outlet? outlet = w.outlet? outlet := rfl
  rw [grant, grant, houtlet]
  cases w.outlet? outlet <;> rfl

theorem changed_remark (w : World) (outlet : String) (e : OutletEvent) :
    (w.changed c).remark outlet e = (w.remark outlet e).changed c := by
  have houtlet : (w.changed c).outlet? outlet = w.outlet? outlet := rfl
  rw [remark, remark, houtlet]
  cases w.outlet? outlet <;> rfl

/-! ### Making loggers -/

theorem changed_add (new : w.New c) (o : Options) (d : Destination) :
    (w.changed c).add o d = changedIn c (w.add o d) := by
  have hlength : (w.changed c).members.length = w.members.length := List.length_mapIdx
  let y : Member := ⟨Logger.initial (w.members.length + 1) (w.modeOf d) o, d⟩
  have hy : y.changed (c.state w.members.length) = y :=
    congrArg (Member.mk · d) (new _ _ _ o (Nat.le_refl _))
  have hmembers : (w.changed c).members ++ [y] =
      (w.members ++ [y]).mapIdx fun m x => x.changed (c.state m) := by
    rw [List.mapIdx_concat, hy]
    rfl
  have hmode : (w.changed c).modeOf d = w.modeOf d := by cases d <;> rfl
  rw [add, hlength, hmode]
  exact congrArg (fun members => ({ w.changed c with members }, w.members.length)) hmembers

theorem changed_addWith (new : w.New c) (r : Render Options) (d : Destination) :
    (w.changed c).addWith r d = changedIn c (w.addWith r d) := by
  obtain ⟨looks, hlooks⟩ := render_eq w r
  rw [addWith, addWith, changed_render, hlooks]
  cases r.outcome with
  | error f => rfl
  | ok o =>
    have hadd := changed_add (w := { w with looks }) new o d
    dsimp only [changedIn]
    rw [hadd]
    rfl

theorem changed_onOutlet (new : w.New c) (name : String) (a : Wanted) :
    (w.changed c).onOutlet name a = changedIn c (w.onOutlet name a) := by
  have houtlet : (w.changed c).outlet? name = w.outlet? name := rfl
  rw [onOutlet, onOutlet, houtlet]
  cases w.outlet? name with
  | none => rfl
  | some o =>
    have hhost : (w.changed c).host = w.host := rfl
    dsimp only
    rw [changed_addWith new, hhost]
    split
    · rfl
    · rcases w.addWith (a.options w.host) (.outlet name) with ⟨u, _ | m⟩ <;> rfl

theorem changed_openFile (w : World) (path : Value) :
    (w.changed c).openFile path = changedIn c (w.openFile path) := by
  have hfiles : (w.changed c).files = w.files := rfl
  rw [openFile, openFile, hfiles]
  cases pathBytes path with
  | error f => rfl
  | ok bs =>
    dsimp only
    cases w.files.openForWriting bs with
    | ok opened => rfl
    | error e =>
      dsimp only
      rw [changed_render]
      rcases w.render (openFault path e) with ⟨u, _ | f⟩ <;> rfl

theorem changed_onFile (new : w.New c) (path : Value) (a : Wanted) :
    (w.changed c).onFile path a = changedIn c (w.onFile path a) := by
  rw [onFile, onFile, changed_openFile]
  rcases openFile_cases w path with ⟨p, files, -, -, hopen⟩ | ⟨-, looks, f, hopen⟩
  · rw [hopen]
    exact changed_addWith (w := { w with files }) new (a.options w.host) _
  · rw [hopen]
    rfl

theorem changed_onSyslog (new : w.New c) (address ident : Value) (a : Wanted) :
    (w.changed c).onSyslog address ident a = changedIn c (w.onSyslog address ident a) := by
  let r := SyslogWriter.connect w.network w.program w.process address ident
  obtain ⟨looks, hlooks⟩ := render_eq w r
  have hrender : (w.changed c).render (SyslogWriter.connect (w.changed c).network
      (w.changed c).program (w.changed c).process address ident) =
        changedIn c ({ w with looks }, r.outcome) := by
    rw [← hlooks]
    exact changed_render w r
  rw [onSyslog, onSyslog, hrender, hlooks]
  rcases r.outcome with _ | ⟨network, _ | writer⟩
  · rfl
  · rfl
  · exact changed_addWith (w := { w with looks, network }) new (syslogOptions w.host a)
      (.syslog writer)

theorem changed_onNamed (new : w.New c) (name : Value) (a : Wanted) :
    (w.changed c).onNamed name a = changedIn c (w.onNamed name a) := by
  unfold onNamed
  dsimp only
  rw [changed_onFile new]
  split
  · rfl
  · split
    · rfl
    · rw [changed_onSyslog new]
      split <;> rfl

theorem changed_onSettings (new : w.New c) (s : Settings) :
    (w.changed c).onSettings s = changedIn c (w.onSettings s) := by
  unfold onSettings
  split
  · exact changed_onOutlet new _ _
  · rw [changed_onSyslog new, changed_onFile new]
    split <;> rfl

theorem changed_announceSettings (w : World) (alone : w.target = none) (s : Settings) :
    (w.changed c).announceSettings s = (w.announceSettings s).changed c := by
  have halone : (w.changed c).target = none := alone
  rw [announceSettings_alone alone, announceSettings_alone halone]
  exact congrArg (fun notices => { w.changed c with notices })
    (List.append_assoc c.notices w.notices (w.announcement s))

theorem changed_provide (w : World) (o : Outlet) :
    (w.changed c).provide o = (w.provide o).changed c := by
  have houtlet : (w.changed c).outlet? o.name = w.outlet? o.name := rfl
  rw [provide, provide, houtlet, apply_ite (changed c)]
  rfl

theorem changed_construct (new : w.New c) (alone : w.target = none) (source : Source)
    (a : Wanted) : (w.changed c).construct source a = changedIn c (w.construct source a) := by
  cases source with
  | outlet o =>
    have hnew : (w.provide o).New c := by
      unfold New
      rw [provide_members]
      exact new
    rw [construct, construct, changed_provide]
    exact changed_onOutlet hnew o.name a
  | file path => exact changed_onFile new path a
  | syslog address ident => exact changed_onSyslog new address ident a
  | named name => exact changed_onNamed new name a
  | settings given =>
    let r := Settings.load .standard ⟨given, w.environment⟩
    have hrender :
      (w.changed c).render (Settings.load .standard ⟨given, (w.changed c).environment⟩) =
        changedIn c (w.render r) := changed_render w r
    obtain ⟨looks, hlooks⟩ := render_eq w r
    rw [construct, construct, hrender, hlooks]
    cases r.outcome with
    | error f => rfl
    | ok s =>
      have halone : ({ w with looks } : World).target = none := alone
      obtain ⟨notices, hnotices⟩ := announceSettings_notices halone s
      dsimp only [changedIn]
      rw [changed_announceSettings _ halone, hnotices]
      exact changed_onSettings (w := { w with looks, notices }) new s

end

/-! ### A change to one logger -/

section

variable {w : World} {m : Nat} {x : Member} {f : Logger.State → Logger.State}
  {number : ∀ s, (f s).number = s.number} {worker : ∀ s, (f s).worker = s.worker}

theorem only_self (hx : w.members[m]? = some x) :
    (w.changed (.only m f number worker)).members[m]? = some (x.changed f) := by
  have hstate : (Change.only m f number worker).state m = f := funext fun _ => if_pos rfl
  rw [changed_member, hx, Option.map_some, hstate]

theorem only_other (w : World) {k : Nat} (hk : k ≠ m) :
    (w.changed (.only m f number worker)).members[k]? = w.members[k]? := by
  have hchanged : Member.changed ((Change.only m f number worker).state k) = id := by
    funext y
    have hstate : (Change.only m f number worker).state k y.state = y.state := if_neg hk
    rw [Member.changed, hstate]
    rfl
  rw [changed_member, hchanged, Option.map_id, id]

/-- What becomes of the logger is not what it was changed to. -/
theorem only_setMember (w : World) (z : Member) :
    (w.changed (.only m f number worker)).setMember m z = w.setMember m z := by
  have hset : ∀ k : Nat, ((w.changed (.only m f number worker)).setMember m z).members[k]? =
      (w.setMember m z).members[k]? := by
    intro k
    by_cases hk : k = m
    · subst hk
      simp [setMember, changed, List.getElem?_set]
    · rw [setMember_other hk, setMember_other hk, only_other w hk]
  have hlooks : 0 + w.looks = w.looks := Nat.zero_add _
  calc
    (w.changed (.only m f number worker)).setMember m z =
        { w with
          members := ((w.changed (.only m f number worker)).setMember m z).members
          looks := 0 + w.looks } := rfl
    _ = w.setMember m z := by rw [List.ext_getElem? hset, hlooks]; rfl

theorem setMember_only (w : World) (z : Member) :
    (w.setMember m z).changed (.only m f number worker) = w.setMember m (z.changed f) := by
  have hstate : (Change.only m f number worker).state m = f := funext fun _ => if_pos rfl
  rw [← changed_setMember, hstate, only_setMember]

theorem only_new (h : m < w.members.length) : w.New (.only m f number worker) := by
  intro k n mode o hk
  exact if_neg (Nat.ne_of_gt (Nat.lt_of_lt_of_le h hk))

end

end World

namespace Program

open World

/-- The logger that an event is one of does not see the change. -/
def Overlooked (c : Change) (w : World) (e : Event) : Prop :=
  ∀ m le x, part? w e = some (m, le) → w.members[m]? = some x →
    Logger.Unseen (c.state m) w.clock x.state le

section

variable {c : Change} {w : World} {e : Event}

theorem changed_enabled (overlooked : Overlooked c w e) :
    Enabled (w.changed c) e ↔ Enabled w e := by
  cases e with
  | start m t i =>
    have htakes := changed_takes (c := c) fun x hx => overlooked m _ x rfl hx
    exact iff_of_eq (congrArg (· = true) htakes)
  | caller m t =>
    have htakes := changed_takes (c := c) fun x hx => overlooked m _ x rfl hx
    exact iff_of_eq (congrArg (· = true) htakes)
  | collect m t =>
    have htakes := changed_takes (c := c) fun x hx => overlooked m _ x rfl hx
    exact iff_of_eq (congrArg (· = true) htakes)
  | worker m =>
    have hready := changed_workerReady (c := c) fun x hx => overlooked m _ x rfl hx
    exact iff_of_eq (congrArg (· = true) hready)
  | ownCall m i =>
    have htakes := changed_takes (c := c) fun x hx => overlooked m _ x rfl hx
    exact iff_of_eq (congrArg (· = true) htakes)
  | make | setClock | permit | disturb | note | remark => exact Iff.rfl

theorem changed_next (hs : w.shape.Sound) (new : w.New c) (overlooked : Overlooked c w e) :
    next (w.changed c) e = (next w e).changed c := by
  cases e with
  | start m t i => exact changed_event fun x hx => overlooked m _ x rfl hx
  | caller m t => exact changed_callerTurn fun x hx => overlooked m _ x rfl hx
  | collect m t => exact changed_event fun x hx => overlooked m _ x rfl hx
  | worker m =>
    refine changed_workerStep hs fun x hx => ?_
    have hresult : serviceResult w m = (w.service m x).2 := by rw [serviceResult, hx]
    exact hresult ▸ overlooked m _ x rfl hx
  | ownCall m i =>
    exact congrArg Prod.fst (changed_ownCall fun x hx => overlooked m _ x rfl hx)
  | make source a => exact congrArg Prod.fst (changed_construct new hs.alone source a)
  | permit outlet n => exact changed_grant w outlet n
  | remark outlet e => exact changed_remark w outlet e
  | note n => exact changed_note w n
  | setClock | disturb => rfl

theorem next_length (hs : w.shape.Sound) (e : Event) :
    w.members.length ≤ (next w e).members.length := by
  cases hp : part? w e with
  | some p =>
    have hhomes : (next w e).shape.homes.length = w.shape.homes.length :=
      congrArg (fun g : Shape => g.homes.length) (own_shape hs hp)
    rw [homes_length, homes_length] at hhomes
    exact hhomes.ge
  | none =>
    by_contra hfewer
    obtain ⟨x, hx⟩ : ∃ x, w.members[(next w e).members.length]? = some x :=
      ⟨_, List.getElem?_eq_getElem (Nat.lt_of_not_le hfewer)⟩
    have hgone := next_shared hs.alone hp hx
    exact absurd (List.getElem?_eq_some_iff.mp hgone).1 (Nat.lt_irrefl _)

theorem next_new (hs : w.shape.Sound) (new : w.New c) (e : Event) : (next w e).New c :=
  fun m n mode o hm => new m n mode o (Nat.le_trans (next_length hs e) hm)

theorem only_overlooked {m : Nat} {f : Logger.State → Logger.State}
    {number : ∀ s, (f s).number = s.number} {worker : ∀ s, (f s).worker = s.worker}
    (unseen : ∀ le x, part? w e = some (m, le) → w.members[m]? = some x →
      Logger.Unseen f w.clock x.state le) : Overlooked (.only m f number worker) w e := by
  intro k le x hp hx
  by_cases hk : k = m
  · subst hk
    have hstate : (Change.only k f number worker).state k = f := funext fun _ => if_pos rfl
    rw [hstate]
    exact unseen le x hp hx
  · have hstate : (Change.only m f number worker).state k = id := funext fun _ => if_neg hk
    rw [hstate]
    exact ⟨Iff.rfl, rfl, fun _ _ _ => rfl, fun _ _ => rfl⟩

/-- A run in which no logger sees the change is a run of the changed program too, and leads to the
changed end. -/
theorem run_changed {es : List Event} (hs : w.shape.Sound) (new : w.New c)
    (overlooked : ∀ before e rest, es = before ++ e :: rest →
      Overlooked c (machine.after w before) e) :
    (machine.Valid (w.changed c) es ↔ machine.Valid w es) ∧
      machine.after (w.changed c) es = (machine.after w es).changed c := by
  induction es generalizing w with
  | nil => exact ⟨Iff.rfl, rfl⟩
  | cons e es ih =>
    have hnow := overlooked [] e es rfl
    obtain ⟨hvalid, hafter⟩ := ih (next_sound hs e) (next_new hs new e)
      fun before e' rest hes => overlooked (e :: before) e' rest (by rw [hes]; rfl)
    have hnext : machine.next (w.changed c) e = (machine.next w e).changed c :=
      changed_next hs new hnow
    rw [Machine.Valid, Machine.Valid, Machine.after, hnext]
    exact ⟨and_congr (changed_enabled hnow) hvalid, hafter⟩

end

end Program

end LeveledLog
