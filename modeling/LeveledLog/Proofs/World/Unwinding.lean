import LeveledLog.Proofs.Logger.Absorption
import LeveledLog.Proofs.World.Events
import LeveledLog.Proofs.World.Service

/-!
Two programs between which a logger cannot tell, if no other logger writes to the same place: what
is done on other loggers leads to such a program, and what is done on the logger itself, or on none,
leads from two such programs to two of them. Loggers on the system log share the network, so there
the writes may end differently.
-/

namespace LeveledLog

theorem WorkerPhase.calm_writing {p : WorkerPhase} {l : List CodePoint}
    (h : p.calm = .writing l) : p = .writing l := by
  cases p with
  | reporting d => cases d <;> cases h
  | _ => exact h

namespace Logger

section

variable {now : Stamp} {s u : State} {e : Event} {t : Thread} {outcome : Option Fault}

theorem worker_can_calm (s : State) :
    WorkerCanStep s.calm s.calm.worker ↔ WorkerCanStep s s.worker := by
  change WorkerCanStep s.calm s.worker.calm ↔ WorkerCanStep s s.worker
  cases s.worker with
  | reporting d => cases d <;> exact Iff.rfl
  | _ => exact Iff.rfl

theorem Event.worker_isHandled (h : ∀ f, outcome = some f → f.isAbrupt = false) :
    (Event.worker outcome).isHandled = true := by
  cases outcome with
  | none => rfl
  | some f => simp [isHandled, h f rfl]

/-- If the worker did not fail in a flush, then it would be at the same place without the
failure. -/
theorem worker_next_calm (handled : (Event.worker outcome).isHandled = true)
    (h : WorkerCanStep s s.worker)
    (flushed : ∀ l, s.worker = .flushing l → outcome = none) :
    (next now s (.worker outcome)).calm = next now s.calm (.worker none) := by
  have hone : calmed s (now, .worker outcome) = [(now, .worker none)] := by
    cases outcome with
    | none => cases hw : s.worker <;> simp [calmed]
    | some f =>
      cases hw : s.worker with
      | flushing l => cases flushed l hw
      | _ => simp [calmed, hw]
  have hafter : machine.after s.calm (calmed s (now, .worker outcome)) =
      (workerStep s outcome s.worker).calm := (worker_calm handled h).2
  rw [hone] at hafter
  exact hafter.symm

/-- After a fault that nothing handles the worker has ended, whatever failed before. -/
theorem worker_next_abrupt {f : Fault} (abrupt : f.isAbrupt = true) {l : List CodePoint}
    (hw : s.worker = .writing l) :
    (next now s (.worker (some f))).calm = next now s.calm (.worker (some f)) := by
  have hcalm : s.calm.worker = .writing l := congrArg WorkerPhase.calm hw
  rw [next, next, hw, hcalm, workerStep, workerStep, fail, fail, if_pos abrupt, if_pos abrupt]
  rfl

end

end Logger

namespace World

/-- The same logger in two programs. On the system log some writes may have failed in one of them
only. -/
structure Matches (x y : Member) : Prop where
  destination : x.destination = y.destination
  calm : x.state.calm = y.state.calm
  same : (∀ s, x.destination ≠ .syslog s) → x.state = y.state

/-- Two programs in which a logger and its destination are the same. -/
structure Close (m : Nat) (w v : World) : Prop where
  member : ∀ x, w.members[m]? = some x → ∃ y, v.members[m]? = some y ∧ Matches x y
  absent : w.members[m]? = none → v.members[m]? = none
  outlet : ∀ x name, w.members[m]? = some x → x.destination = .outlet name →
    w.outlet? name = v.outlet? name

/-- Two programs between which a logger cannot tell, whatever is done with it. -/
structure Alike (m : Nat) (w v : World) : Prop where
  shape : w.shape = v.shape
  /-- But for the outlets that other loggers write to. -/
  outlets : ∀ name, (∀ k, w.shape.Bound k name → k = m) → w.outlet? name = v.outlet? name
  member : ∀ x, w.members[m]? = some x → ∃ y, v.members[m]? = some y ∧ Matches x y

section

variable {m k : Nat} {w v u : World} {x y z : Member} {name : String} {e : Event} {t : Thread}

theorem Matches.refl (x : Member) : Matches x x := ⟨rfl, rfl, fun _ => rfl⟩

theorem Matches.symm (h : Matches x y) : Matches y x :=
  ⟨h.destination.symm, h.calm.symm, fun hy => (h.same (h.destination ▸ hy)).symm⟩

theorem Matches.trans (h : Matches x y) (k : Matches y z) : Matches x z := by
  refine ⟨h.destination.trans k.destination, h.calm.trans k.calm, fun hx => ?_⟩
  exact (h.same hx).trans (k.same (h.destination ▸ hx))

theorem Matches.eq (h : Matches x y) (hx : ∀ s, x.destination ≠ .syslog s) : x = y := by
  have hdestination := h.destination
  have hstate := h.same hx
  cases x
  cases y
  exact congrArg₂ Member.mk hstate hdestination

theorem Matches.next (h : Matches x y) (now : Stamp) {e : Logger.Event} (he : e.caller? = some t) :
    Matches { x with state := Logger.next now x.state e }
      { y with state := Logger.next now y.state e } := by
  refine ⟨h.destination, ?_, fun hx => ?_⟩
  · change (Logger.next now x.state e).calm = (Logger.next now y.state e).calm
    rw [← Logger.caller_calm he, ← Logger.caller_calm he, h.calm]
  · change Logger.next now x.state e = Logger.next now y.state e
    rw [h.same hx]

theorem Matches.callers (h : Matches x y) : x.state.callers = y.state.callers := by
  change x.state.calm.callers = y.state.calm.callers
  rw [h.calm]

theorem Matches.enabled (h : Matches x y) {e : Logger.Event} (he : e.caller? = some t) :
    Logger.Enabled x.state e ↔ Logger.Enabled y.state e := by
  have hx : Logger.Enabled x.state.calm e ↔ Logger.Enabled x.state e :=
    Logger.enabled_beside _ _ _ _ he
  have hy : Logger.Enabled y.state.calm e ↔ Logger.Enabled y.state e :=
    Logger.enabled_beside _ _ _ _ he
  rw [← hx, ← hy, h.calm]

theorem Matches.worker_can (h : Matches x y) : Logger.WorkerCanStep x.state x.state.worker ↔
    Logger.WorkerCanStep y.state y.state.worker := by
  rw [← Logger.worker_can_calm, h.calm, Logger.worker_can_calm]

theorem member_of_shape (h : w.shape = v.shape) (hy : v.members[m]? = some y) :
    ∃ x, w.members[m]? = some x := by
  obtain ⟨hlt, -⟩ := List.getElem?_eq_some_iff.mp hy
  rw [← length_of_shape h] at hlt
  exact ⟨_, List.getElem?_eq_getElem hlt⟩

theorem Alike.clock (h : Alike m w v) : v.clock = w.clock := (congrArg Shape.clock h.shape).symm

theorem Alike.host (h : Alike m w v) : v.host = w.host := (congrArg Shape.host h.shape).symm

theorem Alike.refl (m : Nat) (w : World) : Alike m w w :=
  ⟨rfl, fun _ _ => rfl, fun x hx => ⟨x, hx, Matches.refl x⟩⟩

theorem Alike.symm (h : Alike m w v) : Alike m v w := by
  refine ⟨h.shape.symm, fun name hname => ?_, fun y hy => ?_⟩
  · rw [← h.shape] at hname
    exact (h.outlets name hname).symm
  · obtain ⟨x, hx⟩ := member_of_shape h.shape hy
    obtain ⟨y', hy', hxy⟩ := h.member x hx
    obtain rfl : y' = y := Option.some.inj (hy'.symm.trans hy)
    exact ⟨x, hx, hxy.symm⟩

theorem Alike.trans (h : Alike m w v) (j : Alike m v u) : Alike m w u := by
  refine ⟨h.shape.trans j.shape, fun name hname => ?_, fun x hx => ?_⟩
  · refine (h.outlets name hname).trans (j.outlets name ?_)
    rw [← h.shape]
    exact hname
  · obtain ⟨y, hy, hxy⟩ := h.member x hx
    obtain ⟨z, hz, hyz⟩ := j.member y hy
    exact ⟨z, hz, hxy.trans hyz⟩

theorem Touched.alike (h : Touched k w u) (hk : k ≠ m) : Alike m w u := by
  refine ⟨h.shape.symm, fun name hname => ?_, fun x hx => ?_⟩
  · exact (h.outlets name fun hbound => hk (hname k hbound)).symm
  · exact ⟨x, (h.others m hk.symm).trans hx, Matches.refl x⟩

theorem Close.outcome (h : Close m w v) (t : Thread) : w.outcomeOf? m t = v.outcomeOf? m t := by
  unfold outcomeOf?
  cases hx : w.members[m]? with
  | none => rw [h.absent hx]
  | some x =>
    obtain ⟨y, hy, hxy⟩ := h.member x hx
    rw [hy]
    dsimp only
    rw [hxy.callers]

theorem worker_ready_iff (hx : w.members[m]? = some x) : w.workerReady m = true ↔
    Logger.WorkerCanStep x.state x.state.worker ∧
      ((∃ l, x.state.worker = .writing l) → w.writePasses x = true) := by
  unfold workerReady
  rw [hx]
  dsimp only
  rw [Bool.and_eq_true, decide_eq_true_iff]
  refine and_congr Iff.rfl ?_
  cases x.state.worker <;> simp

theorem member_of_ready (ready : w.workerReady m = true) : ∃ x, w.members[m]? = some x := by
  unfold workerReady at ready
  split at ready
  · cases ready
  · exact ⟨_, ‹_›⟩

theorem Close.worker_ready (h : Close m w v) : w.workerReady m = true ↔ v.workerReady m = true := by
  cases hx : w.members[m]? with
  | none =>
    have hy := h.absent hx
    simp only [workerReady, hx, hy]
  | some x =>
    obtain ⟨y, hy, hxy⟩ := h.member x hx
    rw [worker_ready_iff hx, worker_ready_iff hy]
    cases hd : x.destination with
    | syslog s =>
      have hd' : y.destination = .syslog s := hxy.destination.symm.trans hd
      simp [writePasses, hd, hd', hxy.worker_can]
    | outlet name =>
      obtain rfl : x = y := hxy.eq (by simp [hd])
      simp only [writePasses, hd, h.outlet x name hx hd]
    | file f =>
      obtain rfl : x = y := hxy.eq (by simp [hd])
      simp only [writePasses, hd]

theorem Close.takes (h : Close m w v) {c : Logger.Event} (hc : c.caller? = some t) :
    w.takes m c = v.takes m c := by
  unfold World.takes
  cases hx : w.members[m]? with
  | none => rw [h.absent hx]
  | some x =>
    obtain ⟨y, hy, hxy⟩ := h.member x hx
    rw [hy]
    exact decide_eq_decide.mpr (hxy.enabled hc)

/-- Whether an event of the logger can happen is up to the logger and its destination. -/
theorem Close.enabled (h : Close m w v) (he : e.member? = some m) : Enabled w e ↔ Enabled v e := by
  cases e with
  | start j t i =>
    obtain rfl : j = m := Option.some.inj he
    have hstart : w.takes j (.start t i) = v.takes j (.start t i) := h.takes rfl
    rw [Enabled, Enabled, hstart]
  | caller j t =>
    obtain rfl : j = m := Option.some.inj he
    have hready : w.callerReady j t = v.callerReady j t := h.takes (c := .caller t) rfl
    rw [Enabled, Enabled, hready]
  | worker j =>
    obtain rfl : j = m := Option.some.inj he
    exact h.worker_ready
  | collect j t =>
    obtain rfl : j = m := Option.some.inj he
    rw [Enabled, Enabled, h.outcome t]
  | make | setClock | permit => cases he

theorem worker_touched (hs : w.shape.Sound) (distinct : w.shape.homes.Nodup) (k : Nat) :
    Touched k w (workerTurn patience [] w k) := by
  obtain ⟨fuel, hfuel⟩ : ∃ fuel, patience = fuel + 5 := ⟨19995, rfl⟩
  rw [hfuel]
  cases hx : w.members[k]? with
  | none =>
    rw [workerTurn]
    simp only [hx]
    exact Touched.refl k w
  | some x =>
    cases hd : x.destination with
    | outlet name =>
      obtain ⟨o, ho⟩ := outlet_of_member hs hx hd
      exact (worker_turn_outlet fuel [] hs distinct hx hd ho).1
    | file f => exact (worker_turn_file (fuel + 3) [] hs hx hd).1
    | syslog s => exact (worker_turn_syslog (fuel + 3) [] hs hx hd).1

theorem own_touched (hs : w.shape.Sound) (distinct : w.shape.homes.Nodup)
    (he : e.member? = some k) : Touched k w (next w e) := by
  cases e with
  | start j t i =>
    obtain rfl : j = k := Option.some.inj he
    exact (event_touched w j (.start t i)).trans (Touched.of_shape j rfl rfl rfl)
  | caller j t =>
    obtain rfl : j = k := Option.some.inj he
    exact (event_touched w j (.caller t)).trans (Touched.of_shape j rfl rfl rfl)
  | worker j =>
    obtain rfl : j = k := Option.some.inj he
    exact worker_touched hs distinct j
  | collect j t =>
    obtain rfl : j = k := Option.some.inj he
    rw [next]
    unfold collect
    split
    · exact Touched.refl j w
    · exact (event_touched w j (.collect t)).trans (Touched.of_shape j rfl rfl rfl)
  | make | setClock | permit => cases he

theorem event_alike (h : Alike m w v) {e : Logger.Event} (he : e.caller? = some t) :
    Alike m (w.event m e) (v.event m e) := by
  refine ⟨?_, fun name hname => ?_, fun x' hx' => ?_⟩
  · rw [event_shape, event_shape, h.shape]
  · rw [event_shape] at hname
    rw [outlet?, outlet?, event_outlets, event_outlets]
    exact h.outlets name hname
  · obtain ⟨x, hx⟩ := member_of_shape (event_shape w m e).symm hx'
    obtain ⟨y, hy, hxy⟩ := h.member x hx
    rw [event_self hx] at hx'
    obtain rfl := Option.some.inj hx'
    refine ⟨_, event_self hy e, ?_⟩
    rw [h.clock]
    exact hxy.next w.clock he

theorem Alike.outlet (h : Alike m w v) (hs : w.shape.Sound) (distinct : w.shape.homes.Nodup)
    (hx : w.members[m]? = some x) (hd : x.destination = .outlet name) :
    ∃ o, w.outlet? name = some o ∧ v.outlet? name = some o := by
  obtain ⟨o, ho⟩ := outlet_of_member hs hx hd
  have hbound : w.shape.Bound m name := (bound_iff hx).mpr hd
  have halone : ∀ k, w.shape.Bound k name → k = m := fun k hk =>
    Shape.bound_unique distinct hk hbound
  exact ⟨o, ho, (h.outlets name halone).symm.trans ho⟩

theorem Alike.close (h : Alike m w v) (hs : w.shape.Sound) (distinct : w.shape.homes.Nodup) :
    Close m w v := by
  refine ⟨h.member, fun hnone => ?_, fun x name hx hd => ?_⟩
  · rw [List.getElem?_eq_none_iff] at hnone ⊢
    rw [← length_of_shape h.shape]
    exact hnone
  · obtain ⟨o, ho, ho'⟩ := h.outlet hs distinct hx hd
    exact ho.trans ho'.symm

/-- Two turns of the logger, which change nothing but the logger and its outlet. -/
theorem Alike.of_touched {w' v' : World} (h : Alike m w v) (hw : Touched m w w')
    (hv : Touched m v v') (hx : w'.members[m]? = some x) (hy : v'.members[m]? = some y)
    (hxy : Matches x y)
    (houtlet : ∀ name, w.shape.Bound m name → w'.outlet? name = v'.outlet? name) :
    Alike m w' v' := by
  refine ⟨hw.shape.trans (h.shape.trans hv.shape.symm), fun name hname => ?_, fun x' hx' => ?_⟩
  · by_cases hbound : w.shape.Bound m name
    · exact houtlet name hbound
    · rw [hw.shape] at hname
      rw [hw.outlets name hbound, hv.outlets name (h.shape ▸ hbound)]
      exact h.outlets name hname
  · obtain rfl : x = x' := Option.some.inj (hx.symm.trans hx')
    exact ⟨y, hy, hxy⟩

theorem outlet_worker_alike (h : Alike m w v) (hs : w.shape.Sound)
    (distinct : w.shape.homes.Nodup) (hx : w.members[m]? = some x)
    (hd : x.destination = .outlet name) :
    Alike m (workerTurn patience [] w m) (workerTurn patience [] v m) := by
  obtain ⟨fuel, hfuel⟩ : ∃ fuel, patience = fuel + 5 := ⟨19995, rfl⟩
  obtain ⟨y, hy, hxy⟩ := h.member x hx
  obtain rfl : x = y := hxy.eq (by simp [hd])
  obtain ⟨o, ho, ho'⟩ := h.outlet hs distinct hx hd
  obtain ⟨hw, hxw, how⟩ := worker_turn_outlet fuel [] hs distinct hx hd ho
  obtain ⟨hv, hxv, hov⟩ :=
    worker_turn_outlet fuel [] (h.shape ▸ hs) (h.shape ▸ distinct) hy hd ho'
  rw [h.clock, h.host] at hxv hov
  rw [hfuel]
  refine h.of_touched hw hv hxw hxv (Matches.refl _) fun other hother => ?_
  rw [bound_iff hx, hd] at hother
  obtain rfl : name = other := Destination.outlet.inj hother
  rw [how, hov]

theorem file_worker_alike (h : Alike m w v) (hs : w.shape.Sound) (hx : w.members[m]? = some x)
    {f : Writer} (hd : x.destination = .file f) :
    Alike m (workerTurn patience [] w m) (workerTurn patience [] v m) := by
  obtain ⟨fuel, hfuel⟩ : ∃ fuel, patience = fuel + 2 := ⟨19998, rfl⟩
  obtain ⟨y, hy, hxy⟩ := h.member x hx
  obtain rfl : x = y := hxy.eq (by simp [hd])
  obtain ⟨hw, hxw⟩ := worker_turn_file fuel [] hs hx hd
  obtain ⟨hv, hxv⟩ := worker_turn_file fuel [] (h.shape ▸ hs) hy hd
  rw [h.clock] at hxv
  rw [hfuel]
  refine h.of_touched hw hv hxw hxv (Matches.refl _) fun other hother => ?_
  rw [bound_iff hx, hd] at hother
  cases hother

/-- On the system log the two turns may end differently, one with a fault and one without, unless
the fault ends the thread: that is one of the ident, which both write down. -/
theorem Turned.calm {s : SyslogWriter} {now : Stamp} {r r' : Option Fault} (hxy : Matches x y)
    (hcan : Logger.WorkerCanStep x.state x.state.worker) (hr : Turned s x.state.worker r)
    (hr' : Turned s y.state.worker r') :
    (Logger.next now x.state (.worker r)).calm = (Logger.next now y.state (.worker r')).calm := by
  have hhandled : (Logger.Event.worker r).isHandled = true →
      (Logger.Event.worker r').isHandled = true →
      (Logger.next now x.state (.worker r)).calm =
        (Logger.next now y.state (.worker r')).calm := by
    intro h h'
    rw [Logger.worker_next_calm h hcan hr.flushed,
      Logger.worker_next_calm h' (hxy.worker_can.mp hcan) hr'.flushed, hxy.calm]
  have hphase : x.state.worker.calm = y.state.worker.calm :=
    congrArg Logger.State.worker hxy.calm
  by_cases hwriting : ∃ l, x.state.worker = .writing l
  · obtain ⟨l, hl⟩ := hwriting
    have hl' : y.state.worker = .writing l := by
      rw [hl] at hphase
      exact WorkerPhase.calm_writing hphase.symm
    have hends := hr.written l hl
    have hends' := hr'.written l hl'
    unfold SyslogWriter.Ends at hends hends'
    cases hident : s.ident.plain.outcome with
    | error f =>
      rw [hident] at hends hends'
      obtain rfl := hends
      obtain rfl := hends'
      by_cases habrupt : f.isAbrupt = true
      · rw [Logger.worker_next_abrupt habrupt hl, Logger.worker_next_abrupt habrupt hl', hxy.calm]
      · exact hhandled (by simp [Logger.Event.isHandled, habrupt])
          (by simp [Logger.Event.isHandled, habrupt])
    | ok name =>
      rw [hident] at hends hends'
      exact hhandled (Logger.Event.worker_isHandled hends) (Logger.Event.worker_isHandled hends')
  · have hnot : ∀ l, x.state.worker ≠ .writing l := fun l hl => hwriting ⟨l, hl⟩
    have hnot' : ∀ l, y.state.worker ≠ .writing l := by
      intro l hl
      rw [hl] at hphase
      exact hnot l (WorkerPhase.calm_writing hphase)
    rw [hr.apart hnot, hr'.apart hnot'] at hhandled ⊢
    exact hhandled rfl rfl

theorem syslog_worker_alike (h : Alike m w v) (hs : w.shape.Sound) (hx : w.members[m]? = some x)
    {s : SyslogWriter} (hd : x.destination = .syslog s)
    (hcan : Logger.WorkerCanStep x.state x.state.worker) :
    Alike m (workerTurn patience [] w m) (workerTurn patience [] v m) := by
  obtain ⟨fuel, hfuel⟩ : ∃ fuel, patience = fuel + 2 := ⟨19998, rfl⟩
  obtain ⟨y, hy, hxy⟩ := h.member x hx
  have hd' : y.destination = .syslog s := hxy.destination.symm.trans hd
  obtain ⟨hw, r, hxw, hr⟩ := worker_turn_syslog fuel [] hs hx hd
  obtain ⟨hv, r', hxv, hr'⟩ := worker_turn_syslog fuel [] (h.shape ▸ hs) hy hd'
  rw [h.clock] at hxv
  rw [hfuel]
  refine h.of_touched hw hv hxw hxv ⟨hxy.destination, ?_, ?_⟩ fun other hother => ?_
  · change (Logger.next w.clock x.state (.worker r)).calm =
      (Logger.next w.clock y.state (.worker r')).calm
    exact hr.calm hxy hcan hr'
  · exact fun hnot => absurd hd (hnot s)
  · rw [bound_iff hx, hd] at hother
    cases hother

theorem worker_alike (h : Alike m w v) (hs : w.shape.Sound) (distinct : w.shape.homes.Nodup)
    (ready : w.workerReady m = true) :
    Alike m (workerTurn patience [] w m) (workerTurn patience [] v m) := by
  obtain ⟨x, hx⟩ := member_of_ready ready
  have hcan := ((worker_ready_iff hx).mp ready).1
  cases hd : x.destination with
  | outlet name => exact outlet_worker_alike h hs distinct hx hd
  | file f => exact file_worker_alike h hs hx hd
  | syslog s => exact syslog_worker_alike h hs hx hd hcan

theorem own_alike (h : Alike m w v) (hs : w.shape.Sound) (distinct : w.shape.homes.Nodup)
    (he : e.member? = some m) (ready : Enabled w e) : Alike m (next w e) (next v e) := by
  cases e with
  | start j t i =>
    obtain rfl : j = m := Option.some.inj he
    have hstep : Alike j (w.event j (.start t i)) (v.event j (.start t i)) := event_alike h rfl
    exact ⟨hstep.shape, hstep.outlets, hstep.member⟩
  | caller j t =>
    obtain rfl : j = m := Option.some.inj he
    have hstep : Alike j (w.event j (.caller t)) (v.event j (.caller t)) := event_alike h rfl
    exact ⟨hstep.shape, hstep.outlets, hstep.member⟩
  | worker j =>
    obtain rfl : j = m := Option.some.inj he
    exact worker_alike h hs distinct ready
  | collect j t =>
    obtain rfl : j = m := Option.some.inj he
    have houtcome := (h.close hs distinct).outcome t
    obtain ⟨outcome, hout⟩ := Option.isSome_iff_exists.mp ready
    rw [hout] at houtcome
    have hstep : Alike j (w.event j (.collect t)) (v.event j (.collect t)) := event_alike h rfl
    simp only [next, collect, hout, ← houtcome]
    exact ⟨hstep.shape, hstep.outlets, hstep.member⟩
  | make | setClock | permit => cases he

theorem bound_grown {g h : Shape} (hk : g.Bound k name) (hhomes : g.homes <+: h.homes) :
    h.Bound k name := by
  obtain ⟨rest, hrest⟩ := hhomes
  obtain ⟨hlt, -⟩ := List.getElem?_eq_some_iff.mp hk
  rw [Shape.Bound, ← hrest, List.getElem?_append_left hlt]
  exact hk

theorem shared_alike (h : Alike m w v) (hs : w.shape.Sound) (he : e.shared = true) :
    Alike m (next w e) (next v e) := by
  have hparallel := shared_parallel h.shape hs he
  obtain ⟨new, hw, hv⟩ := hparallel.members
  refine ⟨hparallel.shape, fun name hname => ?_, fun x hx => ?_⟩
  · apply hparallel.outlets name
    apply h.outlets name
    intro k hk
    exact hname k (bound_grown hk (next_homes hs e))
  · by_cases hm : m < w.members.length
    · have hm' : m < v.members.length := length_of_shape h.shape ▸ hm
      rw [hw, List.getElem?_append_left hm] at hx
      rw [hv, List.getElem?_append_left hm']
      exact h.member x hx
    · have hle := Nat.le_of_not_lt hm
      have hle' : v.members.length ≤ m := length_of_shape h.shape ▸ hle
      rw [hw, List.getElem?_append_right hle, length_of_shape h.shape] at hx
      rw [hv, List.getElem?_append_right hle']
      exact ⟨x, hx, Matches.refl x⟩

end

end World

end LeveledLog
