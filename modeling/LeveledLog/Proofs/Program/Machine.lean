import LeveledLog.Proofs.World.Activation
import LeveledLog.Proofs.World.Events
import LeveledLog.Proofs.World.Service

/-!
A program in small steps. A worker's step is one thing at its destination and one at its logger;
what code at a destination or the handler of a notice calls meanwhile are steps of their own. Any
number of threads call any loggers in any order, and sends to the system log fail and succeed at any
time. To each logger this is a run of its own.
-/

namespace LeveledLog

namespace World

def reported (w : World) (x : Member) (d : Diagnostic) : World :=
  if w.noticeLevel.rank ≤ (reportLevel d).rank then
    (w.reportMessage x d).1.note
      (.report "lvlog.worker" (reportLevel d) (w.reportMessage x d).2 (reportCause d))
  else w

/-- What a worker does outside of its logger in one step, and how it ends. -/
def service (w : World) (m : Nat) (x : Member) : World × Option Fault :=
  match x.state.worker with
  | .receiving => (w, none)
  | .ended _ => (w, none)
  | .writing line => w.write m line
  | .flushing _ => w.flush m
  | .reporting d => (w.reported x d, none)

def workerStep (w : World) (m : Nat) : World :=
  match w.members[m]? with
  | none => w
  | some x => (w.service m x).1.event m (.worker (w.service m x).2)

def remark (w : World) (name : String) (e : OutletEvent) : World :=
  match w.outlet? name with
  | some o => w.setOutlet (o.record e)
  | none => w

end World

namespace Program

open World (Fresh)

inductive Event where
  | make (source : Source) (wanted : Wanted)
  | setClock (t : Stamp)
  | permit (outlet : String) (n : Nat)
  /-- That many sends to the system log fail from now on. -/
  | disturb (n : Nat)
  | note (n : Notice)
  | remark (outlet : String) (e : OutletEvent)
  | start (m : Nat) (t : Thread) (i : Invocation)
  | caller (m : Nat) (t : Thread)
  /-- A thread takes the outcome of its call and goes on with the program. -/
  | collect (m : Nat) (t : Thread)
  | worker (m : Nat)
  /-- The worker itself calls its logger. -/
  | ownCall (m : Nat) (i : Invocation)

def Enabled (w : World) : Event → Prop
  | .start m t i => w.takes m (.start t i)
  | .caller m t => w.callerReady m t
  | .collect m t => w.takes m (.collect t)
  | .worker m => w.workerReady m
  | .ownCall m i => w.takes m (.ownCall i)
  | _ => True

instance (w : World) (e : Event) : Decidable (Enabled w e) := by
  cases e <;> simp only [Enabled] <;> infer_instance

def next (w : World) : Event → World
  | .make source a => (w.construct source a).1
  | .setClock t => { w with clock := t }
  | .permit outlet n => w.grant outlet n
  | .disturb n => { w with network := { w.network with failures := n } }
  | .note n => w.note n
  | .remark outlet e => w.remark outlet e
  | .start m t i => w.event m (.start t i)
  | .caller m t => w.callerTurn m t
  | .collect m t => w.event m (.collect t)
  | .worker m => w.workerStep m
  | .ownCall m i => (w.ownCall m i).1

def machine : Machine World Event := ⟨Enabled, next⟩

instance (w : World) (e : Event) : Decidable (machine.Enabled w e) :=
  inferInstanceAs (Decidable (Enabled w e))

theorem made_of_option {result : Except Fault Nat} {m : Nat} (h : result.toOption = some m) :
    result = .ok m := by
  cases result with
  | error f => cases h
  | ok k => exact congrArg _ (Option.some.inj h)

def serviceResult (w : World) (m : Nat) : Option Fault :=
  match w.members[m]? with
  | none => none
  | some x => (w.service m x).2

/-- The logger that an event is one of, and what the event is to it. -/
def part? (w : World) : Event → Option (Nat × Logger.Event)
  | .start m t i => some (m, .start t i)
  | .caller m t => some (m, .caller t)
  | .collect m t => some (m, .collect t)
  | .worker m => some (m, .worker (serviceResult w m))
  | .ownCall m i => some (m, .ownCall i)
  | _ => none

/-- What an event is to a logger: one event of its own, at what the clock shows, or none. -/
def share (m : Nat) (w : World) (e : Event) : List (Stamp × Logger.Event) :=
  match part? w e with
  | some (k, le) => if k = m then [(w.clock, le)] else []
  | none => []

end Program

namespace World

section

variable {w : World} {m j : Nat} {x : Member}

theorem reported_frame (w : World) (x : Member) (d : Diagnostic) :
    ∃ looks notices, w.reported x d = { w with looks, notices } := by
  unfold reported
  split
  · obtain ⟨looks, hlooks⟩ := report_looks w x d
    rw [hlooks]
    exact ⟨looks, _, rfl⟩
  · exact ⟨w.looks, w.notices, rfl⟩

theorem reported_shape (w : World) (x : Member) (d : Diagnostic) :
    (w.reported x d).shape = w.shape := by
  obtain ⟨looks, notices, h⟩ := reported_frame w x d
  rw [h]
  rfl

theorem service_shape (hs : w.shape.Sound) (m : Nat) (x : Member) :
    (w.service m x).1.shape = w.shape := by
  unfold service
  split
  · rfl
  · rfl
  · exact write_shape hs m _
  · exact flush_shape w m
  · exact reported_shape w x _

theorem set_same (hx : w.members[m]? = some x) : w.members = w.members.set m x := by
  obtain ⟨hlt, rfl⟩ := List.getElem?_eq_some_iff.mp hx
  rw [List.set_getElem_self]

theorem write_member (hx : w.members[m]? = some x) (line : List CodePoint) :
    ∃ d, (w.write m line).1.members = w.members.set m { x with destination := d } := by
  have hsame : w.members = w.members.set m { x with destination := x.destination } :=
    set_same hx
  cases hd : x.destination with
  | outlet name =>
    refine ⟨x.destination, Eq.trans ?_ hsame⟩
    simp only [write, hx, hd]
    split <;> rfl
  | file f => exact ⟨_, by simp only [write, hx, hd]; rfl⟩
  | syslog s =>
    obtain ⟨looks, network, h⟩ := write_syslog hx hd line
    exact ⟨x.destination, by rw [h]; exact hsame⟩

theorem flush_members (w : World) (m : Nat) : (w.flush m).1.members = w.members := by
  unfold flush
  split
  · split <;> rfl
  · rfl

theorem service_member (hx : w.members[m]? = some x) :
    ∃ d, (w.service m x).1.members = w.members.set m { x with destination := d } := by
  have hsame : w.members = w.members.set m { x with destination := x.destination } :=
    set_same hx
  unfold service
  split
  · exact ⟨_, hsame⟩
  · exact ⟨_, hsame⟩
  · exact write_member hx _
  · exact ⟨_, (flush_members w m).trans hsame⟩
  · obtain ⟨looks, notices, h⟩ := reported_frame w x _
    exact ⟨x.destination, by rw [h]; exact hsame⟩

theorem construct_members (alone : w.target = none) (source : Source) (a : Wanted) :
    ∃ new, (w.construct source a).1.members = w.members ++ new := by
  have hmade := construct_all_or_nothing alone source a
  cases h : (w.construct source a).2 with
  | error f =>
    have huntouched := hmade.refused f h
    exact ⟨[], by rw [huntouched.members, List.append_nil]⟩
  | ok m =>
    obtain ⟨route, r, -, -, o, d, -, hmembers⟩ := hmade.made m h
    exact ⟨_, hmembers⟩

theorem remark_shape (w : World) (name : String) (e : OutletEvent) :
    (w.remark name e).shape = w.shape := by
  unfold remark
  split
  · exact record_shape ‹_› e
  · rfl

theorem remark_members (w : World) (name : String) (e : OutletEvent) :
    (w.remark name e).members = w.members := by
  unfold remark
  split <;> rfl

end

end World

namespace Program

open World

section

variable {w : World} {e : Event} {m : Nat} {x : Member}

theorem workerStep_shape (hs : w.shape.Sound) (m : Nat) : (w.workerStep m).shape = w.shape := by
  unfold workerStep
  split
  · rfl
  · rw [event_shape, service_shape hs]

theorem next_sound (hs : w.shape.Sound) (e : Event) : (next w e).shape.Sound := by
  cases e with
  | make source a => exact (construct_agree rfl hs source a).2.sound
  | setClock t => exact World.next_sound hs (.setClock t)
  | permit outlet n => exact World.next_sound hs (.permit outlet n)
  | disturb n =>
    have hshape := network_shape (w := w) (n := { w.network with failures := n }) rfl
    exact hshape ▸ hs
  | note n => exact hs
  | remark outlet e => exact (remark_shape w outlet e).symm ▸ hs
  | start m t i => exact (event_shape w m (.start t i)).symm ▸ hs
  | caller m t => exact (caller_turn_shape w m t).symm ▸ hs
  | collect m t => exact (event_shape w m (.collect t)).symm ▸ hs
  | worker m => exact (workerStep_shape hs m).symm ▸ hs
  | ownCall m i => exact (own_call_shape w m i).symm ▸ hs

/-- An event of a logger leaves alone what the making of loggers depends on. -/
theorem own_shape (hs : w.shape.Sound) {p : Nat × Logger.Event} (hp : part? w e = some p) :
    (next w e).shape = w.shape := by
  cases e with
  | start m t i => exact event_shape w m (.start t i)
  | caller m t => exact caller_turn_shape w m t
  | collect m t => exact event_shape w m (.collect t)
  | worker m => exact workerStep_shape hs m
  | ownCall m i => exact own_call_shape w m i
  | make | setClock | permit | disturb | note | remark => cases hp

/-- What a thread does at a logger, or the worker calls, is to the program but an event of the
logger. -/
theorem turn_event {k : Nat} {le : Logger.Event} (hp : part? w e = some (k, le))
    (hworker : ∀ j, e ≠ .worker j) : ∃ looks, next w e = { w.event k le with looks } := by
  cases e with
  | start m t i | collect m t =>
    cases hp
    exact ⟨_, rfl⟩
  | caller m t =>
    cases hp
    exact ⟨_, rfl⟩
  | worker m => exact absurd rfl (hworker m)
  | ownCall m i =>
    cases hp
    rw [next, World.ownCall]
    cases hx : w.members[k]? with
    | none =>
      refine ⟨w.looks, ?_⟩
      rw [World.event, hx]
    | some x =>
      dsimp only
      exact ⟨_, rfl⟩
  | make | setClock | permit | disturb | note | remark => cases hp

theorem member_of_takes {le : Logger.Event} (h : w.takes m le = true) :
    ∃ x, w.members[m]? = some x := by
  cases hx : w.members[m]? with
  | none => simp [takes, hx] at h
  | some x => exact ⟨x, rfl⟩

theorem enabled_of_takes {le : Logger.Event} (hx : w.members[m]? = some x)
    (h : w.takes m le = true) : Logger.Enabled x.state le := by
  simpa [takes, hx] using h

/-- The event that an event of the program is to a logger is enabled there, and happens there. -/
theorem next_own (hs : w.shape.Sound) (h : Enabled w e) (hx : w.members[m]? = some x)
    {le : Logger.Event} (hp : part? w e = some (m, le)) : Logger.Enabled x.state le ∧
      ∃ d, (next w e).members[m]? = some ⟨Logger.next w.clock x.state le, d⟩ := by
  cases e with
  | start m t i =>
    cases hp
    exact ⟨enabled_of_takes hx h, _, event_self hx _⟩
  | caller m t =>
    cases hp
    refine ⟨?_, _, event_self hx _⟩
    simpa [Enabled, callerReady, hx] using h
  | collect m t =>
    cases hp
    exact ⟨enabled_of_takes hx h, _, event_self hx _⟩
  | worker m =>
    cases hp
    have hready : Logger.Enabled x.state (.worker none) := by
      simp only [Enabled, workerReady, hx, Bool.and_eq_true, decide_eq_true_eq] at h
      exact h.1
    obtain ⟨d, hmembers⟩ := service_member hx
    have hself : (w.service m x).1.members[m]? = some { x with destination := d } := by
      rw [hmembers]
      exact setMember_self (w := w) hx
    have hclock : (w.service m x).1.clock = w.clock := congrArg Shape.clock (service_shape hs m x)
    refine ⟨hready, d, ?_⟩
    have hevent := event_self hself (.worker (w.service m x).2)
    rw [hclock] at hevent
    simpa only [next, workerStep, serviceResult, hx] using hevent
  | ownCall m i =>
    cases hp
    refine ⟨enabled_of_takes hx h, x.destination, ?_⟩
    have hcall : (w.ownCall m i).1.members = (w.event m (.ownCall i)).members := by
      simp only [World.ownCall, hx]
    rw [next, hcall]
    exact event_self hx _
  | make | setClock | permit | disturb | note | remark => cases hp

theorem next_other {k : Nat} {le : Logger.Event} (hp : part? w e = some (k, le)) (hk : m ≠ k) :
    (next w e).members[m]? = w.members[m]? := by
  cases e with
  | start j t i =>
    cases hp
    exact event_other w _ hk
  | caller j t =>
    cases hp
    exact event_other w _ hk
  | collect j t =>
    cases hp
    exact event_other w _ hk
  | worker j =>
    cases hp
    rw [next, workerStep]
    split
    · rfl
    · rename_i y hy
      obtain ⟨d, hmembers⟩ := service_member hy
      rw [event_other _ _ hk, hmembers, List.getElem?_set_ne (Ne.symm hk)]
  | ownCall j i =>
    cases hp
    rw [next, World.ownCall]
    split
    · rfl
    · exact event_other w _ hk
  | make | setClock | permit | disturb | note | remark => cases hp

/-- An event that is one of no logger leaves all loggers as they are. -/
theorem next_shared (alone : w.target = none) (hp : part? w e = none)
    (hx : w.members[m]? = some x) : (next w e).members[m]? = some x := by
  cases e with
  | make source a =>
    obtain ⟨new, hnew⟩ := construct_members alone source a
    rw [next, hnew]
    exact List.getElem?_append_left (List.getElem?_eq_some_iff.mp hx).1 ▸ hx
  | setClock | disturb | note => exact hx
  | permit outlet n =>
    rw [next, grant_members]
    exact hx
  | remark outlet e =>
    rw [next, remark_members]
    exact hx
  | start | caller | collect | worker | ownCall => cases hp

/-- What happens in a program is, to each logger, a run of its own. -/
theorem next_member (hs : w.shape.Sound) (h : Enabled w e) (hx : w.members[m]? = some x) :
    Logger.machine.Valid x.state (share m w e) ∧
      ∃ d, (next w e).members[m]? = some ⟨Logger.machine.after x.state (share m w e), d⟩ ∧
        d.home = x.destination.home := by
  cases hp : part? w e with
  | none =>
    have hshare : share m w e = [] := by rw [share, hp]
    rw [hshare]
    exact ⟨trivial, x.destination, next_shared hs.alone hp hx, rfl⟩
  | some p =>
    obtain ⟨k, le⟩ := p
    by_cases hk : k = m
    · subst hk
      have hshare : share k w e = [(w.clock, le)] := by
        rw [share, hp]
        exact if_pos rfl
      obtain ⟨hready, d, hnext⟩ := next_own hs h hx hp
      rw [hshare]
      refine ⟨⟨hready, trivial⟩, d, hnext, ?_⟩
      have hhome := home_of_member hnext
      rw [own_shape hs hp, home_of_member hx] at hhome
      exact (Option.some.inj hhome).symm
    · have hshare : share m w e = [] := by
        rw [share, hp]
        exact if_neg hk
      rw [hshare]
      exact ⟨trivial, x.destination, (next_other hp (Ne.symm hk)).trans hx, rfl⟩

theorem run_sound (hs : w.shape.Sound) (es : List Event) : (machine.after w es).shape.Sound := by
  induction es generalizing w with
  | nil => exact hs
  | cons e es ih => exact ih (next_sound hs e)

/-- A logger as a run has left it, and the run that it had. -/
theorem run_member {es : List Event} (hs : w.shape.Sound) (h : machine.Valid w es)
    (hx : w.members[m]? = some x) :
    Logger.machine.Valid x.state (machine.history (share m) w es) ∧
      ∃ d, (machine.after w es).members[m]? =
          some ⟨Logger.machine.after x.state (machine.history (share m) w es), d⟩ ∧
        d.home = x.destination.home := by
  induction es generalizing w x with
  | nil => exact ⟨trivial, x.destination, hx, rfl⟩
  | cons e es ih =>
    obtain ⟨hvalid, d, hnext, hhome⟩ := next_member hs h.1 hx
    obtain ⟨hvalid', d', hlast, hhome'⟩ := ih (next_sound hs e) h.2 hnext
    rw [Machine.history, Machine.valid_append, Machine.after_append]
    exact ⟨⟨hvalid, hvalid'⟩, d', hlast, hhome'.trans hhome⟩

theorem next_initial (hs : w.shape.Sound) (hx : (next w e).members[m]? = some x)
    (hnew : w.members[m]? = none) :
    ∃ number mode o, x.state = Logger.initial number mode o := by
  have hsame : (next w e).members.length ≠ w.members.length := by
    intro hlength
    obtain ⟨hlt, -⟩ := List.getElem?_eq_some_iff.mp hx
    rw [hlength] at hlt
    exact absurd (List.getElem?_eq_none_iff.mp hnew) (Nat.not_le.mpr hlt)
  cases e with
  | make source a =>
    obtain ⟨hrefused, hmade⟩ := construct_all_or_nothing hs.alone source a
    cases hresult : (w.construct source a).2 with
    | error f => exact absurd (congrArg List.length (hrefused f hresult).members) hsame
    | ok k =>
      obtain ⟨route, r, -, -, o, d, -, hmembers⟩ := hmade k hresult
      rw [next, hmembers, List.getElem?_append_right (List.getElem?_eq_none_iff.mp hnew)] at hx
      obtain rfl := List.mem_singleton.mp (List.mem_of_getElem? hx)
      exact ⟨_, _, o, rfl⟩
  | setClock | disturb | note => exact absurd rfl hsame
  | permit outlet n => exact absurd (congrArg List.length (grant_members w outlet n)) hsame
  | remark outlet noted => exact absurd (congrArg List.length (remark_members w outlet noted)) hsame
  | start | caller | collect | worker | ownCall =>
    exact absurd (length_of_shape (own_shape hs rfl)) hsame

/-- The state of each logger is one that a logger comes to. -/
theorem reachable_member {es : List Event} (fresh : Fresh w) (h : machine.Valid w es)
    (hx : (machine.after w es).members[m]? = some x) : Logger.Reachable x.state := by
  induction es, h using Machine.run_induction generalizing x with
  | nil =>
    rw [Machine.after, fresh.empty] at hx
    cases hx
  | snoc es e hes he ih =>
    have hs := run_sound fresh.sound es
    rw [Machine.after_append] at hx
    cases hy : (machine.after w es).members[m]? with
    | some y =>
      obtain ⟨hvalid, d, hnext, -⟩ := next_member hs he hy
      obtain rfl := Option.some.inj (hnext.symm.trans hx)
      exact (ih hy).run hvalid
    | none =>
      obtain ⟨number, mode, o, hinitial⟩ := next_initial hs hx hy
      rw [hinitial]
      exact ⟨number, mode, o, .refl _⟩

end

end Program

end LeveledLog
