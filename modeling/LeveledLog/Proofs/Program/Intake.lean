import LeveledLog.Proofs.Program.Records

/-!
What a destination takes of the lines of a logger, if no other logger writes there. An outlet that
fails no write is given each line once, as text or encoded; a file gets the encoded lines after what
it holds. This is followed step by step, whatever else happens in the program.
-/

namespace LeveledLog

def OutletEvent.isArgument : OutletEvent → Bool
  | bytes _ => true
  | text _ => true
  | _ => false

namespace Outlet

/-- What the writes were called with that did not fail. -/
def arguments (o : Outlet) : List OutletEvent := o.events.filter OutletEvent.isArgument

def argument (mode : Mode) (line : List CodePoint) : OutletEvent :=
  match mode with
  | .text => .text line
  | .bytes => .bytes (Text.encode line)

/-- All of an outlet that has to do with what it takes. -/
structure Intake where
  mode : Mode
  writes : List (Option FaultKind)
  arguments : List OutletEvent

def intake (o : Outlet) : Intake := ⟨o.mode, o.writes, o.arguments⟩

def Intake.Unfailing (i : Intake) : Prop := ∀ r ∈ i.writes, r = none

section

variable {o : Outlet}

theorem record_intake {e : OutletEvent} (he : e.isArgument = false) :
    (o.record e).intake = o.intake := by
  have harguments : (o.record e).arguments = o.arguments := by
    simp [arguments, record, List.filter_append, he]
  simp only [intake, harguments]
  rfl

theorem flushOnce_intake (o : Outlet) : o.flushOnce.1.intake = o.intake := by
  unfold flushOnce
  split
  · rfl
  · rfl
  · dsimp only
    split <;> exact record_intake rfl

end

structure Took (i : Intake) (lines : List (List CodePoint)) (i' : Intake) : Prop where
  mode : i'.mode = i.mode
  unfailing : i'.Unfailing
  arguments : i'.arguments = i.arguments ++ lines.map (argument i.mode)

theorem Took.nothing {i : Intake} (unfailing : i.Unfailing) : Took i [] i :=
  ⟨rfl, unfailing, (List.append_nil _).symm⟩

theorem Took.trans {i i' i'' : Intake} {lines more : List (List CodePoint)} (h : Took i lines i')
    (k : Took i' more i'') : Took i (lines ++ more) i'' := by
  refine ⟨k.mode.trans h.mode, k.unfailing, ?_⟩
  rw [k.arguments, h.arguments, h.mode, List.map_append, List.append_assoc]

/-- A write that does not fail takes its line. -/
theorem write_took {o : Outlet} (h : o.intake.Unfailing) (line : List CodePoint) :
    Took o.intake [line] (o.write line).1.intake := by
  have hhead : ∀ k, o.writes.head? ≠ some (some k) := by
    intro k hk
    cases h _ (List.mem_of_head? hk)
  have hwritten : (o.written line).isArgument = true := by
    unfold written
    split <;> rfl
  unfold write
  dsimp only
  split
  · rename_i k hk
    exact absurd hk (hhead k)
  · refine ⟨rfl, fun r hr => h r (List.mem_of_mem_tail hr), ?_⟩
    simp only [intake, arguments, record, List.filter_append, List.filter_cons, hwritten, if_true,
      List.filter_nil]
    rfl

end Outlet

namespace World

def intake (w : World) (name : String) : Option Outlet.Intake := (w.outlet? name).map Outlet.intake

section

variable {w v : World} {m : Nat} {x : Member} {name : String} {o old : Outlet} {i : Outlet.Intake}

theorem intake_of_outlets (h : v.outlets = w.outlets) (name : String) :
    v.intake name = w.intake name := by
  rw [intake, outlet?, h]
  rfl

theorem setOutlet_intake (ho : w.outlet? o.name = some old) (h : o.intake = old.intake)
    (name : String) : (w.setOutlet o).intake name = w.intake name := by
  rw [intake, outlet?_setOutlet]
  split
  · subst name
    rw [intake, ho]
    exact congrArg some h
  · rfl

theorem setOutlet_intake_other (h : o.name ≠ name) :
    (w.setOutlet o).intake name = w.intake name := by
  rw [intake, outlet?_setOutlet, if_neg h]
  rfl

theorem addWith_outlets (w : World) (options : Render Options) (d : Destination) :
    (w.addWith options d).1.outlets = w.outlets := by
  obtain ⟨looks, members, hadded⟩ := addWith_frame w options d
  rw [hadded]

theorem onOutlet_intake (w : World) (other : String) (a : Wanted) (name : String) :
    (w.onOutlet other a).1.intake name = w.intake name := by
  rcases onOutlet_cases w other a with ⟨o, v, m, ho, -, hadd, hmade⟩ | ⟨looks, f, hfailed⟩
  · have hadded := w.addWith_outlets (a.options w.host) (.outlet other)
    rw [hadd] at hadded
    have hknown : v.outlet? { o with latest := some m }.name = some o := by
      rw [outlet?, hadded, ← outlet?, outlet?_name ho]
      exact ho
    rw [hmade]
    exact (setOutlet_intake hknown rfl name).trans (intake_of_outlets hadded name)
  · rw [hfailed]
    rfl

theorem onFile_outlets (w : World) (path : Value) (a : Wanted) :
    (w.onFile path a).1.outlets = w.outlets := by
  rcases onFile_cases w path a with ⟨p, files, -, -, hmade⟩ | ⟨-, looks, f, hfailed⟩
  · rw [hmade, addWith_outlets]
  · rw [hfailed]

theorem onSyslog_outlets (w : World) (address ident : Value) (a : Wanted) :
    (w.onSyslog address ident a).1.outlets = w.outlets := by
  rw [onSyslog_eq]
  dsimp only
  split
  · rfl
  · rfl
  · rw [addWith_outlets]

theorem onRoute_intake (w : World) (a : Wanted) (route : Route) (name : String) :
    (w.onRoute a route).1.intake name = w.intake name := by
  cases route with
  | outlet other => exact onOutlet_intake w other a name
  | file path => exact intake_of_outlets (onFile_outlets w path a) name
  | syslog address ident => exact intake_of_outlets (onSyslog_outlets w address ident a) name

theorem construct_intake (alone : w.target = none) (h : w.intake name = some i) (source : Source)
    (a : Wanted) : (w.construct source a).1.intake name = some i := by
  obtain ⟨o, ho, rfl⟩ := Option.map_eq_some_iff.mp h
  rcases construct_unrouted w source a with ⟨route, r, hreads⟩ | ⟨looks, f, hrefused⟩
  · obtain ⟨v, hprepared, hmade⟩ := construct_routed alone hreads
    rw [hmade, onRoute_intake, intake, hprepared.outlets name o ho]
    rfl
  · rw [hrefused]
    exact h

theorem write_outlet?_other (hx : w.members[m]? = some x) (apart : x.destination ≠ .outlet name)
    (line : List CodePoint) : (w.write m line).1.outlet? name = w.outlet? name := by
  cases hd : x.destination with
  | outlet other =>
    have hne : other ≠ name := fun h => apart (hd.trans (congrArg Destination.outlet h))
    cases ho : w.outlet? other with
    | none => simp only [write, hx, hd, ho]
    | some o =>
      have hname : (o.write line).1.name ≠ name := by
        rw [(o.write_face line).1, outlet?_name ho]
        exact hne
      rw [write_outlet hx hd ho, outlet?_setOutlet, if_neg hname]
  | file f => simp only [write, hx, hd]; rfl
  | syslog s =>
    obtain ⟨looks, network, h⟩ := write_syslog hx hd line
    rw [h]
    rfl

theorem flush_outlet?_other (hx : w.members[m]? = some x) (apart : x.destination ≠ .outlet name) :
    (w.flush m).1.outlet? name = w.outlet? name := by
  cases hd : x.destination with
  | outlet other =>
    have hne : other ≠ name := fun h => apart (hd.trans (congrArg Destination.outlet h))
    cases ho : w.outlet? other with
    | none =>
      obtain ⟨s, d⟩ := x
      obtain rfl : d = .outlet other := hd
      simp only [flush, hx, ho]
    | some o =>
      have hname : o.flushOnce.1.name ≠ name := by
        rw [o.flushOnce_face.1, outlet?_name ho]
        exact hne
      rw [flush_outlet hx hd ho, outlet?_setOutlet, if_neg hname]
  | file f =>
    obtain ⟨s, d⟩ := x
    obtain rfl : d = .file f := hd
    simp only [flush, hx]
  | syslog f =>
    obtain ⟨s, d⟩ := x
    obtain rfl : d = .syslog f := hd
    simp only [flush, hx]

theorem service_outlet?_other (hx : w.members[m]? = some x)
    (apart : x.destination ≠ .outlet name) :
    (w.service m x).1.outlet? name = w.outlet? name := by
  unfold service
  split
  · rfl
  · rfl
  · exact write_outlet?_other hx apart _
  · exact flush_outlet?_other hx apart
  · obtain ⟨looks, notices, h⟩ := reported_frame w x _
    rw [h]
    rfl

/-- An outlet that fails no write takes what its worker is to write, and nothing else. -/
theorem service_took (hx : w.members[m]? = some x) (hd : x.destination = .outlet name)
    (h : w.intake name = some i) (unfailing : i.Unfailing) :
    ∃ i', (w.service m x).1.intake name = some i' ∧ Outlet.Took i x.state.inWrite i' := by
  obtain ⟨o, ho, rfl⟩ := Option.map_eq_some_iff.mp h
  cases hw : x.state.worker with
  | receiving | ended =>
    have hnone : x.state.inWrite = [] := by rw [Logger.State.inWrite, hw]
    rw [service, hw, hnone]
    exact ⟨_, h, .nothing unfailing⟩
  | writing line =>
    have hline : x.state.inWrite = [line] := by rw [Logger.State.inWrite, hw]
    have hself := setOutlet_self ho ((o.write_face line).1.trans (outlet?_name ho))
    rw [service, hw, hline]
    dsimp only
    rw [write_outlet hx hd ho, intake, hself]
    exact ⟨_, rfl, Outlet.write_took unfailing line⟩
  | flushing line =>
    have hnone : x.state.inWrite = [] := by rw [Logger.State.inWrite, hw]
    have hself := setOutlet_self ho (o.flushOnce_face.1.trans (outlet?_name ho))
    rw [service, hw, hnone]
    dsimp only
    rw [flush_outlet hx hd ho, intake, hself, Option.map_some, o.flushOnce_intake]
    exact ⟨_, rfl, .nothing unfailing⟩
  | reporting d =>
    have hnone : x.state.inWrite = [] := by rw [Logger.State.inWrite, hw]
    obtain ⟨looks, notices, hreported⟩ := reported_frame w x d
    rw [service, hw, hnone]
    dsimp only
    rw [hreported]
    exact ⟨_, h, .nothing unfailing⟩

end

end World

namespace Program

/-- No other logger of the program writes where a logger does. -/
def Sole (w : World) (m : Nat) : Prop :=
  ∀ (k : Nat) (x y : Member), w.members[m]? = some x → w.members[k]? = some y →
    y.destination.home = x.destination.home → k = m

section

variable {w : World} {e : Event} {m : Nat} {x : Member} {name : String} {i : Outlet.Intake}
  {es : List Event}

theorem sole_before (hs : w.shape.Sound) (h : machine.Valid w es)
    (sole : Sole (machine.after w es) m) : Sole w m := by
  -- Loggers stay where they are, so one at the same destination would still be there at the end.
  intro k x y hx hy hhome
  obtain ⟨-, d, hlast, hd⟩ := run_member hs h hx
  obtain ⟨-, d', hlast', hd'⟩ := run_member hs h hy
  exact sole k _ _ hlast hlast' (hd'.trans (hhome.trans hd.symm))

theorem worker_lines (hx : w.members[m]? = some x) :
    (tries m w (.worker m)).map Try.line = x.state.inWrite := by
  rw [tries_worker hx, List.map_map]
  exact List.map_id _

theorem turn_outlets {q : Nat × Logger.Event} (hp : part? w e = some q)
    (hworker : ∀ j, e ≠ .worker j) : (next w e).outlets = w.outlets := by
  obtain ⟨looks, hturn⟩ := turn_event hp hworker
  rw [hturn]
  exact World.event_outlets w q.1 q.2

/-- At each event the outlet takes the line that its worker is to write, if there is one. -/
theorem next_took (hs : w.shape.Sound) (hx : w.members[m]? = some x)
    (hd : x.destination = .outlet name) (sole : Sole w m)
    (unmarked : ∀ noted, e = .remark name noted → noted.isArgument = false)
    (h : w.intake name = some i) (unfailing : i.Unfailing) :
    ∃ i', (next w e).intake name = some i' ∧ Outlet.Took i ((tries m w e).map Try.line) i' := by
  have hquiet : tries m w e = [] → (next w e).intake name = w.intake name →
      ∃ i', (next w e).intake name = some i' ∧
        Outlet.Took i ((tries m w e).map Try.line) i' := by
    intro hnone hsame
    rw [hnone, hsame, h]
    exact ⟨i, rfl, .nothing unfailing⟩
  cases e with
  | make source a =>
    refine hquiet rfl ?_
    rw [h]
    exact World.construct_intake hs.alone h source a
  | setClock | disturb | note => exact hquiet rfl rfl
  | permit outlet n =>
    refine hquiet rfl ?_
    rw [next, World.intake, World.grant_outlet?]
    split
    · rw [Option.map_map]
      rfl
    · rfl
  | remark outlet noted =>
    refine hquiet rfl ?_
    rw [next, World.remark]
    split
    · rename_i o ho
      obtain rfl : o.name = outlet := World.outlet?_name ho
      by_cases hname : o.name = name
      · have hintake := o.record_intake (unmarked noted (by rw [hname]))
        exact World.setOutlet_intake (o := o.record noted) ho hintake name
      · exact World.setOutlet_intake_other (o := o.record noted) hname
    · rfl
  | start | caller | collect | ownCall =>
    exact hquiet rfl (World.intake_of_outlets (turn_outlets rfl (by rintro _ ⟨⟩)) name)
  | worker k =>
    by_cases hk : k = m
    · subst hk
      obtain ⟨i', hi', htook⟩ := World.service_took hx hd h unfailing
      rw [worker_lines hx, next, World.workerStep, hx]
      exact ⟨i', (World.intake_of_outlets (World.event_outlets _ k _) name).trans hi', htook⟩
    · refine hquiet (tries_other hk) ?_
      rw [next, World.workerStep]
      split
      · rfl
      · rename_i y hy
        have hapart : y.destination ≠ .outlet name := by
          intro hy'
          refine hk (sole k x y hx hy ?_)
          rw [hd, hy']
        refine (World.intake_of_outlets (World.event_outlets _ k _) name).trans ?_
        rw [World.intake, World.service_outlet?_other hy hapart]
        rfl

theorem run_took (hs : w.shape.Sound) (h : machine.Valid w es) (hx : w.members[m]? = some x)
    (hd : x.destination = .outlet name) (sole : Sole (machine.after w es) m)
    (unmarked : ∀ noted, .remark name noted ∈ es → noted.isArgument = false)
    (hi : w.intake name = some i) (unfailing : i.Unfailing) :
    ∃ i', (machine.after w es).intake name = some i' ∧
      Outlet.Took i ((machine.history (tries m) w es).map Try.line) i' := by
  induction es generalizing w x i with
  | nil => exact ⟨i, hi, .nothing unfailing⟩
  | cons e es ih =>
    obtain ⟨i', hi', htook⟩ := next_took (e := e) hs hx hd (sole_before hs h sole)
      (fun noted he => unmarked noted (he ▸ List.mem_cons_self)) hi unfailing
    obtain ⟨-, d, hnext, hhome⟩ := next_member hs h.1 hx
    have hd' : d = .outlet name := by
      rw [hd] at hhome
      cases d with
      | outlet other => exact hhome
      | file | syslog => cases hhome
    obtain ⟨i'', hlast, hrest⟩ := ih (next_sound hs e) h.2 hnext hd' sole
      (fun noted he => unmarked noted (List.mem_cons_of_mem _ he)) hi' htook.unfailing
    refine ⟨i'', hlast, ?_⟩
    rw [Machine.history, List.map_append]
    exact htook.trans hrest

end

end Program

end LeveledLog
