import LeveledLog.Proofs.Value.Looks
import LeveledLog.Proofs.World.Turns

/-!
What one turn of a logger comes to. It changes that logger and the outlet that it writes to, and no
other; and what it makes of the two depends on nothing else but the clock, as long as no other
logger writes to the outlet. A logger on the system log shares the network, so whether its write
succeeds is left open.
-/

namespace LeveledLog

namespace World

/-- At most what belongs to one logger has changed: its state, and the outlet that it writes to. -/
structure Touched (m : Nat) (w u : World) : Prop where
  shape : u.shape = w.shape
  others : ∀ j, j ≠ m → u.members[j]? = w.members[j]?
  outlets : ∀ name, ¬w.shape.Bound m name → u.outlet? name = w.outlet? name

section

variable {w u v : World} {m fuel : Nat} {x : Member} {o : Outlet} {name : String} {busy : List Nat}

theorem Touched.refl (m : Nat) (w : World) : Touched m w w :=
  ⟨rfl, fun _ _ => rfl, fun _ _ => rfl⟩

theorem Touched.trans (h : Touched m w u) (k : Touched m u v) : Touched m w v := by
  refine ⟨k.shape.trans h.shape, ?_, ?_⟩
  · intro j hj
    exact (k.others j hj).trans (h.others j hj)
  · intro name hname
    refine (k.outlets name ?_).trans (h.outlets name hname)
    rw [h.shape]
    exact hname

theorem Touched.of_shape (m : Nat) (hshape : u.shape = w.shape) (hmembers : u.members = w.members)
    (houtlets : u.outlets = w.outlets) : Touched m w u := by
  refine ⟨hshape, ?_, ?_⟩
  · intro j _
    rw [hmembers]
  · intro name _
    rw [outlet?, houtlets, outlet?]

theorem event_touched (w : World) (m : Nat) (e : Logger.Event) : Touched m w (w.event m e) := by
  refine ⟨event_shape w m e, fun j hj => event_other w e hj, fun name _ => ?_⟩
  rw [outlet?, event_outlets, outlet?]

theorem setOutlet_touched (hx : w.members[m]? = some x) (hbound : x.destination = .outlet name)
    (hname : o.name = name) (hshape : (w.setOutlet o).shape = w.shape) :
    Touched m w (w.setOutlet o) := by
  refine ⟨hshape, fun _ _ => rfl, fun other hother => ?_⟩
  rw [outlet?_setOutlet, if_neg]
  rintro rfl
  apply hother
  rw [bound_iff hx, hbound, hname]

theorem setOutlet_self (ho : w.outlet? name = some o) {p : Outlet} (hname : p.name = name) :
    (w.setOutlet p).outlet? name = some p := by
  rw [outlet?_setOutlet, if_pos hname, ho]
  rfl

theorem worker_turn_reporting (hs : w.shape.Sound) (hx : w.members[m]? = some x) {d : Diagnostic}
    (hd : x.state.worker = .reporting d) :
    ∃ u : World, u.shape = w.shape ∧ u.members = w.members ∧ u.outlets = w.outlets ∧
      workerTurn (fuel + 2) busy w m = u.event m (.worker none) := by
  rw [workerTurn]
  simp only [hx, hd]
  split
  · obtain ⟨looks, hlooks⟩ := report_looks w x d
    refine ⟨_, ?_, ?_, ?_, rfl⟩
    all_goals
      rw [announce_alone (by rw [hlooks]; exact hs.alone), hlooks]
      rfl
  · exact ⟨w, rfl, rfl, rfl, rfl⟩

/-- Who is called again while an outlet is written to: with one logger for each outlet, the one
that writes. -/
theorem reentered_self (hs : w.shape.Sound) (distinct : w.shape.homes.Nodup)
    (hx : w.members[m]? = some x) (hd : x.destination = .outlet name)
    (ho : w.outlet? name = some o) :
    w.reentered? x = if o.reentrant && o.latest.isSome then some (o, m) else none := by
  simp only [reentered?, hd, ho]
  by_cases hre : o.reentrant
  · cases hl : o.latest with
    | none => simp [hre]
    | some k =>
      have hface : w.shape.faces name = some o.face := by
        simp [shape, ho]
      have hbound : w.shape.Bound m name := (bound_iff hx).mpr hd
      obtain rfl : k = m := Shape.bound_unique distinct (hs.latest _ _ _ _ hbound hface hl) hbound
      simp [hre]
  · simp [hre]

end

end World

namespace Logger

def ownCalls (now : Stamp) (host : Host) (s : State) (r : Option Outcome) :
    List Call → State × Option Outcome
  | [] => (s, r)
  | c :: rest =>
    let i : Invocation := ⟨c, [], [], host⟩
    ownCalls now host (next now s (.ownCall i)) (some (ownCall s now i).2.1) rest

theorem own_call_own (now : Stamp) (s : State) (i : Invocation) :
    (next now s (.ownCall i)).own = s.own := by
  simp only [next, ownCall, State.own]
  split_ifs
  · rfl
  · rcases (Plan.make s.options now i).run.run 0 with ⟨_ | made, looks⟩ <;> rfl

end Logger

/-- A worker's turn at an outlet: the logger and the outlet that it leaves. -/
def Outlet.serve (now : Stamp) (host : Host) (s : Logger.State) (o : Outlet) :
    Logger.State × Outlet :=
  match s.worker with
  | .writing line =>
    let calls := o.reentrant && o.latest.isSome
    let called := Logger.ownCalls now host s none World.reentrantCalls
    let s := if calls then called.1 else s
    let o := if calls then o.record (.reentered (World.isSynced called.2)) else o
    (Logger.next now s (.worker (o.write line).2), (o.write line).1)
  | .flushing _ => (Logger.next now s (.worker o.flushOnce.2), o.flushOnce.1)
  | _ => (Logger.next now s (.worker none), o)

def Writer.serve (f : Writer) (s : Logger.State) : Writer :=
  match s.worker with
  | .writing line => { f with position := f.position + (Text.encode line).length }
  | _ => f

namespace SyslogWriter

/-- How a write may end: with the fault of the ident, if writing that down ends in one, and
otherwise with none or with one that does not end the thread. -/
def Ends (s : SyslogWriter) (outcome : Option Fault) : Prop :=
  match s.ident.plain.outcome with
  | .error f => outcome = some f
  | .ok _ => ∀ f, outcome = some f → f.isAbrupt = false

theorem write_ends (s : SyslogWriter) (n : Network) (now : Stamp) (line : List UInt8) :
    match (s.write n now line).outcome with
    | .error f => s.Ends (some f)
    | .ok (_, .error f) => s.Ends (some f)
    | .ok (_, .ok _) => s.Ends none := by
  obtain ⟨k, hk⟩ := (Value.plain_steady s.ident).run 0
  unfold Ends
  rw [Render.outcome, write, Render.bind_run, hk]
  cases s.ident.plain.outcome with
  | error f => rfl
  | ok name =>
    dsimp only
    cases (n.send s.socket (Text.utf8 (header now name s.process) ++ line)).2 with
    | none =>
      intro f hf
      cases hf
    | some e =>
      intro f hf
      obtain rfl := Option.some.inj hf
      rfl

end SyslogWriter

namespace World

structure Served (m : Nat) (w u : World) (x : Member) (name : String) (s : Logger.State)
    (p : Outlet) : Prop where
  touched : Touched m w u
  member : u.members[m]? = some { x with state := s }
  outlet : u.outlet? name = some p

section

variable {w : World} {m fuel : Nat} {x : Member} {o : Outlet} {name : String} {busy : List Nat}

theorem callAll_own (fuel : Nat) (busy : List Nat) {cs : List Call} {r : Option Outcome}
    (hx : w.members[m]? = some x) (hfuel : cs.length < fuel) :
    let out := Logger.ownCalls w.clock w.host x.state r cs
    let u := callAll fuel busy w x.state.own m cs r
    Touched m w u.1 ∧ u.1.outlets = w.outlets ∧
      u.1.members[m]? = some { x with state := out.1 } ∧ u.2 = out.2 := by
  induction cs generalizing fuel w x r with
  | nil =>
    obtain ⟨fuel, rfl⟩ := Nat.exists_eq_add_of_lt hfuel
    rw [callAll]
    · exact ⟨Touched.refl m w, rfl, hx, rfl⟩
    · simp
  | cons c rest ih =>
    cases fuel with
    | zero => exact absurd hfuel (Nat.not_lt_zero _)
    | succ fuel =>
      let t := x.state.own
      let next := { x with state := Logger.next w.clock x.state (.ownCall (w.bare c)) }
      let looks := w.looks + (Logger.ownCall x.state w.clock (w.bare c)).2.2
      have hcall : w.ownCall m (w.bare c) = ({ w.event m (.ownCall (w.bare c)) with looks },
          some (Logger.ownCall x.state w.clock (w.bare c)).2.1) := by
        simp only [ownCall, hx, looks]
      have htouched : Touched m w { w.event m (.ownCall (w.bare c)) with looks } :=
        (event_touched w m _).trans (Touched.of_shape m rfl rfl rfl)
      have hself : { w.event m (.ownCall (w.bare c)) with looks }.members[m]? = some next :=
        event_self hx _
      have howner : next.state.own = x.state.own := Logger.own_call_own _ _ _
      have hclock : { w.event m (.ownCall (w.bare c)) with looks }.clock = w.clock :=
        congrArg Shape.clock htouched.shape
      have hrest := ih fuel (r := some (Logger.ownCall x.state w.clock (w.bare c)).2.1) hself
        (Nat.lt_of_succ_lt_succ hfuel)
      have hhost : { w.event m (.ownCall (w.bare c)) with looks }.host = w.host :=
        congrArg Shape.host htouched.shape
      rw [howner, hclock, hhost] at hrest
      obtain ⟨htouched', houtlets, hmember, hresult⟩ := hrest
      rw [callAll]
      simp only [hx, if_true, hcall]
      exact ⟨htouched.trans htouched', houtlets.trans (event_outlets w m _), hmember, hresult⟩

theorem event_ended (hx : w.members[m]? = some x) {lost : Option (List CodePoint)}
    (hd : x.state.worker = .ended lost) : w.event m (.worker none) = w := by
  have hnext : Logger.next w.clock x.state (.worker none) = x.state := by
    rw [Logger.next, hd]
    rfl
  have hmembers : w.members.set m x = w.members := by
    obtain ⟨hlt, rfl⟩ := List.getElem?_eq_some_iff.mp hx
    exact List.set_getElem_self hlt
  simp only [event, hx, hnext, setMember]
  rw [hmembers]

theorem worker_turn_apart (fuel : Nat) (busy : List Nat) (hs : w.shape.Sound)
    (hx : w.members[m]? = some x)
    (hw : ∀ l, x.state.worker ≠ .writing l ∧ x.state.worker ≠ .flushing l) :
    let u := workerTurn (fuel + 2) busy w m
    Touched m w u ∧
      u.members[m]? = some { x with state := Logger.next w.clock x.state (.worker none) } ∧
      u.outlets = w.outlets := by
  have hevent : ∃ v : World, v.shape = w.shape ∧ v.members = w.members ∧ v.outlets = w.outlets ∧
      workerTurn (fuel + 2) busy w m = v.event m (.worker none) := by
    cases hphase : x.state.worker with
    | reporting d => exact worker_turn_reporting hs hx hphase
    | receiving =>
      refine ⟨w, rfl, rfl, rfl, ?_⟩
      rw [workerTurn]
      simp only [hx, hphase]
    | ended lost =>
      refine ⟨w, rfl, rfl, rfl, ?_⟩
      rw [event_ended hx hphase, workerTurn]
      simp only [hx, hphase]
    | writing l => exact absurd hphase (hw l).1
    | flushing l => exact absurd hphase (hw l).2
  obtain ⟨v, hshape, hmembers, houtlets, hturn⟩ := hevent
  have hclock : v.clock = w.clock := congrArg Shape.clock hshape
  rw [hturn]
  refine ⟨(Touched.of_shape m hshape hmembers houtlets).trans (event_touched v m _), ?_, ?_⟩
  · rw [← hclock]
    exact event_self (hmembers ▸ hx) _
  · exact (event_outlets v m _).trans houtlets

theorem flush_outlet (hx : w.members[m]? = some x) (hd : x.destination = .outlet name)
    (ho : w.outlet? name = some o) :
    w.flush m = (w.setOutlet o.flushOnce.1, o.flushOnce.2) := by
  obtain ⟨s, d⟩ := x
  obtain rfl : d = .outlet name := hd
  simp only [flush, hx, ho]

theorem write_outlet (hx : w.members[m]? = some x) (hd : x.destination = .outlet name)
    (ho : w.outlet? name = some o) (line : List CodePoint) :
    w.write m line = (w.setOutlet (o.write line).1, (o.write line).2) := by
  simp only [write, hx, hd, ho]

theorem set_outlet_event (hx : w.members[m]? = some x) (hd : x.destination = .outlet name)
    (ho : w.outlet? name = some o) {p : Outlet} (hname : p.name = o.name)
    (hface : p.face = o.face) (e : Logger.Event) :
    Served m w ((w.setOutlet p).event m e) x name (Logger.next w.clock x.state e) p := by
  have hp : p.name = name := hname.trans (outlet?_name ho)
  have hknown : w.outlet? p.name = some o := by rw [hp, ho]
  have hset := setOutlet_touched hx hd hp (setOutlet_shape hknown hface)
  refine ⟨hset.trans (event_touched _ m e), event_self (w := w.setOutlet p) hx e, ?_⟩
  rw [outlet?, event_outlets, ← outlet?]
  exact setOutlet_self ho hp

theorem write_turn_outlet (fuel : Nat) (busy : List Nat) (hx : w.members[m]? = some x)
    (hd : x.destination = .outlet name) (ho : w.outlet? name = some o)
    (hreentered : w.reentered? x = none) {l : List CodePoint}
    (hphase : x.state.worker = .writing l) :
    Served m w (workerTurn (fuel + 1) busy w m) x name
      (Logger.next w.clock x.state (.worker (o.write l).2)) (o.write l).1 := by
  obtain ⟨hname, hface⟩ := o.write_face l
  have hturn : workerTurn (fuel + 1) busy w m =
      (w.setOutlet (o.write l).1).event m (.worker (o.write l).2) := by
    rw [workerTurn]
    simp only [hx, hphase, hreentered, write_outlet hx hd ho]
  rw [hturn]
  exact set_outlet_event hx hd ho hname hface _

theorem reentrant_turn_outlet (fuel : Nat) (busy : List Nat) (hx : w.members[m]? = some x)
    (hd : x.destination = .outlet name) (ho : w.outlet? name = some o)
    (hreentered : w.reentered? x = some (o, m)) {l : List CodePoint}
    (hphase : x.state.worker = .writing l) :
    let called := Logger.ownCalls w.clock w.host x.state none reentrantCalls
    let p := o.record (.reentered (isSynced called.2))
    Served m w (workerTurn (fuel + 5) busy w m) x name
      (Logger.next w.clock called.1 (.worker (p.write l).2)) (p.write l).1 := by
  have hname : o.name = name := outlet?_name ho
  have hown : reentrantCalls.length < fuel + 4 := by
    rw [reentrantCalls, List.length_cons, List.length_cons, List.length_singleton]
    omega
  obtain ⟨htouched, houtlets, hmember, hresult⟩ :=
    callAll_own (fuel + 4) (m :: busy) (r := none) hx hown
  set u := callAll (fuel + 4) (m :: busy) w x.state.own m reentrantCalls none with hu
  have hfound : u.1.outlet? name = some o := by rw [outlet?, houtlets, ← outlet?, ho]
  let p := o.record (.reentered (isSynced u.2))
  let v := u.1.setOutlet p
  have hset : Touched m u.1 v := setOutlet_touched hmember hd hname (record_shape hfound _)
  have hclock : v.clock = w.clock := congrArg Shape.clock (htouched.trans hset).shape
  have hv : v.members[m]? = some { x with
      state := (Logger.ownCalls w.clock w.host x.state none reentrantCalls).1 } := hmember
  have hp : v.outlet? name = some p := setOutlet_self hfound hname
  obtain ⟨hname', hface⟩ := p.write_face l
  have hturn : workerTurn (fuel + 5) busy w m =
      (v.setOutlet (p.write l).1).event m (.worker (p.write l).2) := by
    rw [workerTurn]
    simp only [hx, hphase, hreentered, hname, ← hu, hfound]
    rw [write_outlet hv hd hp]
  have hserved := set_outlet_event hv hd hp hname' hface (.worker (p.write l).2)
  rw [hclock] at hserved
  dsimp only
  rw [hturn, ← hresult]
  exact ⟨(htouched.trans hset).trans hserved.touched, hserved.member, hserved.outlet⟩

theorem worker_turn_outlet (fuel : Nat) (busy : List Nat) (hs : w.shape.Sound)
    (distinct : w.shape.homes.Nodup) (hx : w.members[m]? = some x)
    (hd : x.destination = .outlet name) (ho : w.outlet? name = some o) :
    Served m w (workerTurn (fuel + 5) busy w m) x name (o.serve w.clock w.host x.state).1
      (o.serve w.clock w.host x.state).2 := by
  have hapart : (∀ l, x.state.worker ≠ .writing l ∧ x.state.worker ≠ .flushing l) →
      Served m w (workerTurn (fuel + 5) busy w m) x name
        (Logger.next w.clock x.state (.worker none)) o := by
    intro hw
    obtain ⟨htouched, hmember, houtlets⟩ := worker_turn_apart (fuel + 3) busy hs hx hw
    refine ⟨htouched, hmember, ?_⟩
    rw [outlet?, houtlets, ← outlet?]
    exact ho
  unfold Outlet.serve
  cases hphase : x.state.worker with
  | receiving => exact hapart (by simp [hphase])
  | reporting d => exact hapart (by simp [hphase])
  | ended lost => exact hapart (by simp [hphase])
  | flushing l =>
    obtain ⟨hname, hface⟩ := o.flushOnce_face
    have hturn : workerTurn (fuel + 5) busy w m =
        (w.setOutlet o.flushOnce.1).event m (.worker o.flushOnce.2) := by
      rw [workerTurn]
      simp only [hx, hphase, flush_outlet hx hd ho]
    rw [hturn]
    exact set_outlet_event hx hd ho hname hface _
  | writing l =>
    have hreentered := reentered_self hs distinct hx hd ho
    dsimp only
    by_cases hcalls : (o.reentrant && o.latest.isSome) = true
    · rw [if_pos hcalls] at hreentered
      simp only [if_pos hcalls]
      exact reentrant_turn_outlet fuel busy hx hd ho hreentered hphase
    · rw [if_neg hcalls] at hreentered
      simp only [if_neg hcalls]
      exact write_turn_outlet (fuel + 4) busy hx hd ho hreentered hphase

theorem worker_turn_inside (fuel : Nat) (busy : List Nat) (hx : w.members[m]? = some x)
    (hd : ∀ name, x.destination ≠ .outlet name) :
    (∀ l, x.state.worker = .writing l → workerTurn (fuel + 1) busy w m =
      (w.write m l).1.event m (.worker (w.write m l).2)) ∧
    (∀ l, x.state.worker = .flushing l → workerTurn (fuel + 1) busy w m =
      w.event m (.worker none)) := by
  have hreentered : w.reentered? x = none := by
    unfold reentered?
    split
    · exact absurd ‹_› (hd _)
    · rfl
  have hflush : w.flush m = (w, none) := by
    unfold flush
    split
    · rename_i name hfound
      rw [hx] at hfound
      exact absurd (congrArg Member.destination (Option.some.inj hfound)) (hd name)
    · rfl
  constructor
  · intro l hphase
    rw [workerTurn]
    simp only [hx, hphase, hreentered]
  · intro l hphase
    rw [workerTurn]
    simp only [hx, hphase, hflush]

theorem worker_turn_file (fuel : Nat) (busy : List Nat) (hs : w.shape.Sound)
    (hx : w.members[m]? = some x) {f : Writer} (hd : x.destination = .file f) :
    let u := workerTurn (fuel + 2) busy w m
    Touched m w u ∧ u.members[m]? =
      some ⟨Logger.next w.clock x.state (.worker none), .file (f.serve x.state)⟩ := by
  obtain ⟨hwriting, hflushing⟩ := worker_turn_inside (fuel + 1) busy hx (by simp [hd])
  have hsame : { x with state := Logger.next w.clock x.state (.worker none) } =
      (⟨Logger.next w.clock x.state (.worker none), .file f⟩ : Member) := by rw [hd]
  have hapart : (∀ l, x.state.worker ≠ .writing l ∧ x.state.worker ≠ .flushing l) →
      f.serve x.state = f →
      let u := workerTurn (fuel + 2) busy w m
      Touched m w u ∧ u.members[m]? =
        some ⟨Logger.next w.clock x.state (.worker none), .file (f.serve x.state)⟩ := by
    intro hw hserve
    obtain ⟨htouched, hmember, -⟩ := worker_turn_apart fuel busy hs hx hw
    exact ⟨htouched, by rw [hmember, hserve, hsame]⟩
  cases hphase : x.state.worker with
  | receiving => exact hapart (by simp [hphase]) (by simp [Writer.serve, hphase])
  | reporting d => exact hapart (by simp [hphase]) (by simp [Writer.serve, hphase])
  | ended lost => exact hapart (by simp [hphase]) (by simp [Writer.serve, hphase])
  | flushing l =>
    rw [hflushing l hphase]
    refine ⟨event_touched w m _, ?_⟩
    rw [event_self hx, hsame]
    simp [Writer.serve, hphase]
  | writing l =>
    rw [hwriting l hphase]
    let files := (w.files.write f (Text.encode l)).1
    let y : Member := ⟨x.state, .file (f.serve x.state)⟩
    have hwrite : w.write m l = ({ w with files }.setMember m y, none) := by
      simp only [write, hx, hd, y, Writer.serve, hphase]
      rfl
    have hshape : ({ w with files }.setMember m y).shape = w.shape := by
      have hwritten := write_shape hs m l
      rwa [hwrite] at hwritten
    have htouched : Touched m w ({ w with files }.setMember m y) :=
      ⟨hshape, fun j hj => setMember_other (w := { w with files }) hj, fun _ _ => rfl⟩
    have hy : ({ w with files }.setMember m y).members[m]? = some y :=
      setMember_self (w := { w with files }) hx
    rw [hwrite]
    exact ⟨htouched.trans (event_touched _ m _), event_self hy _⟩

theorem write_syslog (hx : w.members[m]? = some x) {s : SyslogWriter}
    (hd : x.destination = .syslog s) (line : List CodePoint) :
    ∃ looks network, (w.write m line).1 = { w with looks, network } := by
  simp only [write, hx, hd]
  split
  · rename_i u f hrender
    exact ⟨_, w.network, (congrArg Prod.fst hrender).symm⟩
  all_goals
    rename_i u network _ hrender
    obtain rfl := (congrArg Prod.fst hrender).symm
    exact ⟨_, network, rfl⟩

theorem write_syslog_ends (hx : w.members[m]? = some x) {s : SyslogWriter}
    (hd : x.destination = .syslog s) (line : List CodePoint) : s.Ends (w.write m line).2 := by
  have hwrite := s.write_ends w.network w.clock (Text.encode line)
  rw [Render.outcome] at hwrite
  simp only [write, render, hx, hd]
  rcases hrun : (s.write w.network w.clock (Text.encode line)).run.run 0 with
    ⟨f | ⟨network, f | length⟩, looks⟩
  all_goals
    rw [hrun] at hwrite
    exact hwrite

/-- How the turn of a worker on the system log ends, which depends on the network only in a write,
and there only in whether the system refuses it. -/
structure Turned (s : SyslogWriter) (phase : WorkerPhase) (outcome : Option Fault) :
    Prop where
  flushed : ∀ l, phase = .flushing l → outcome = none
  written : ∀ l, phase = .writing l → s.Ends outcome
  apart : (∀ l, phase ≠ .writing l) → outcome = none

theorem worker_turn_syslog (fuel : Nat) (busy : List Nat) (hs : w.shape.Sound)
    (hx : w.members[m]? = some x) {s : SyslogWriter} (hd : x.destination = .syslog s) :
    let u := workerTurn (fuel + 2) busy w m
    Touched m w u ∧ ∃ outcome,
      u.members[m]? = some { x with state := Logger.next w.clock x.state (.worker outcome) } ∧
        Turned s x.state.worker outcome := by
  obtain ⟨hwriting, hflushing⟩ := worker_turn_inside (fuel + 1) busy hx (by simp [hd])
  have hapart : (∀ l, x.state.worker ≠ .writing l ∧ x.state.worker ≠ .flushing l) →
      let u := workerTurn (fuel + 2) busy w m
      Touched m w u ∧ ∃ outcome,
        u.members[m]? = some { x with state := Logger.next w.clock x.state (.worker outcome) } ∧
          Turned s x.state.worker outcome := by
    intro hw
    obtain ⟨htouched, hmember, -⟩ := worker_turn_apart fuel busy hs hx hw
    exact ⟨htouched, none, hmember, fun _ _ => rfl, fun l hl => absurd hl (hw l).1, fun _ => rfl⟩
  cases hphase : x.state.worker with
  | receiving => exact hphase ▸ hapart (by simp [hphase])
  | reporting d => exact hphase ▸ hapart (by simp [hphase])
  | ended lost => exact hphase ▸ hapart (by simp [hphase])
  | flushing l =>
    rw [hflushing l hphase]
    refine ⟨event_touched w m _, none, event_self hx _, fun _ _ => rfl, ?_, fun _ => rfl⟩
    rintro _ ⟨⟩
  | writing l =>
    rw [hwriting l hphase]
    have hshape := write_shape hs m l
    have hends := write_syslog_ends hx hd l
    obtain ⟨looks, network, hwrite⟩ := write_syslog hx hd l
    rw [hwrite] at hshape ⊢
    refine ⟨(Touched.of_shape m hshape rfl rfl).trans (event_touched _ m _), _,
      event_self (w := { w with looks, network }) hx _, ?_, fun _ _ => hends, ?_⟩
    · rintro _ ⟨⟩
    · exact fun hl => absurd rfl (hl l)

end

end World

end LeveledLog
