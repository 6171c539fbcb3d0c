import LeveledLog.Proofs.Logger.Merge
import LeveledLog.Proofs.Logger.Unadorned
import LeveledLog.Proofs.Program.Machine
import LeveledLog.Proofs.Syslog.Framing
import LeveledLog.Proofs.World.Isolation
import LeveledLog.Proofs.World.Sockets

/-!
Records of the system log. Each line that is handed off to a logger there is tried once, in order,
and makes one record with the time, the sender and the line as it is, or fails and makes none. The
header options have to stay as they are; all else may change at any time, and any sends may fail.
-/

namespace LeveledLog

/-- The name to send under, which is the one of the program if none is given. -/
def SyslogWriter.sender (program : List String) (ident : Option String) : String :=
  match ident, program with
  | some name, _ => name
  | none, [] => unknownProgram
  | none, path :: _ =>
    if path.isEmpty then unknownProgram else String.ofList (Line.baseName path.toList)

theorem SyslogWriter.sender_plain (program : List String) (ident : Option String) :
    (identOf program (ident.elim .none .text)).plain = pure (sender program ident).toList := by
  cases ident with
  | some name => rfl
  | none =>
    cases program with
    | nil => rfl
    | cons path rest =>
      simp only [Option.elim, identOf, defaultIdent, sender]
      split <;> rfl

namespace Program

open World (Fresh OnSyslog event_network)

/-- A try to write a line to the system log: what the clock showed, and how it has ended. -/
structure Try where
  clock : Stamp
  line : List CodePoint
  fault : Option Fault

/-- The record that a line makes. -/
def Try.record (name : List Char) (process : Nat) (p : Try) : List UInt8 :=
  Text.utf8 ("<11>".toList ++ SyslogWriter.stamp p.clock ++ ' ' :: name ++ '[' ::
    Text.natural 10 process ++ "]: ".toList) ++ Text.encode p.line

def Try.sent? (name : List Char) (process : Nat) (p : Try) : Option (List UInt8) :=
  match p.fault with
  | none => some (p.record name process)
  | some _ => none

/-- The try of a logger's worker that an event ends. -/
def tries (m : Nat) (w : World) (e : Event) : List Try :=
  match e, w.members[m]? with
  | .worker k, some x =>
    if k = m then x.state.inWrite.map fun l => ⟨w.clock, l, serviceResult w m⟩ else []
  | _, _ => []

/-- Whether an event asks a logger for other header options. -/
def setsFlagsOf (m : Nat) : Event → Bool
  | .start k _ i => k == m && i.call.setsFlags
  | .ownCall k i => k == m && i.call.setsFlags
  | _ => false

section

variable {w : World} {e : Event} {m : Nat} {x : Member} {s : SyslogWriter} {kind : SocketKind}
  {name : List Char}

theorem next_sockets (hs : w.shape.Sound) (e : Event) :
    w.network.sockets <+: (next w e).network.sockets := by
  have hsame : (next w e).shape = w.shape → w.network.sockets <+: (next w e).network.sockets := by
    intro hshape
    have hsockets : (next w e).network.sockets = w.network.sockets :=
      congrArg (fun h => h.network.sockets) hshape
    rw [hsockets]
  cases e with
  | make source a => exact (World.construct_keeps hs.alone source a).sockets
  | setClock | disturb | note => exact List.prefix_rfl
  | permit outlet n => exact hsame (World.grant_shape w outlet n)
  | remark outlet e => exact hsame (World.remark_shape w outlet e)
  | start | caller | collect | worker | ownCall => exact hsame (own_shape hs rfl)

theorem onSyslog_next (hs : w.shape.Sound) (he : Enabled w e) (h : OnSyslog w m s kind) :
    OnSyslog (next w e) m s kind := by
  obtain ⟨x, hx, hd⟩ := h.member
  obtain ⟨-, d, hnext, hhome⟩ := next_member hs he hx
  have hsame : d = .syslog s := by
    rw [hd] at hhome
    cases d with
    | syslog s' => exact hhome
    | outlet | file => cases hhome
  obtain ⟨more, hmore⟩ := next_sockets hs e
  refine ⟨⟨_, hnext, hsame⟩, ?_⟩
  rw [← hmore, List.getElem?_append_left (List.getElem?_eq_some_iff.mp h.socket).1]
  exact h.socket

theorem onSyslog_run {es : List Event} (hs : w.shape.Sound) (h : machine.Valid w es)
    (hon : OnSyslog w m s kind) : OnSyslog (machine.after w es) m s kind := by
  induction es generalizing w with
  | nil => exact hon
  | cons e es ih => exact ih (next_sound hs e) h.2 (onSyslog_next hs h.1 hon)

theorem tries_lines (hx : w.members[m]? = some x) (e : Event) :
    (tries m w e).map Try.line =
      Logger.machine.history Logger.written? x.state (share m w e) := by
  unfold tries share
  rw [hx]
  cases e with
  | worker k =>
    by_cases hk : k = m
    · subst hk
      simp only [part?, if_true, Machine.history, List.append_nil, List.map_map]
      cases hw : x.state.worker <;>
        simp [Logger.State.inWrite, Logger.written?, hw]
    · simp [part?, hk, Machine.history]
  | start k t i =>
    by_cases hk : k = m <;> simp [part?, hk, Machine.history, Logger.written?]
  | caller k t =>
    by_cases hk : k = m <;> simp [part?, hk, Machine.history, Logger.written?]
  | collect k t =>
    by_cases hk : k = m <;> simp [part?, hk, Machine.history, Logger.written?]
  | ownCall k i =>
    by_cases hk : k = m <;> simp [part?, hk, Machine.history, Logger.written?]
  | make | setClock | permit | disturb | note | remark => rfl

theorem run_tries {es : List Event} (hs : w.shape.Sound) (h : machine.Valid w es)
    (hx : w.members[m]? = some x) :
    (machine.history (tries m) w es).map Try.line =
      Logger.machine.history Logger.written? x.state (machine.history (share m) w es) := by
  induction es generalizing w x with
  | nil => rfl
  | cons e es ih =>
    obtain ⟨-, d, hnext, -⟩ := next_member hs h.1 hx
    rw [Machine.history, Machine.history, List.map_append, Machine.history_append, tries_lines hx]
    exact congrArg (_ ++ ·) (ih (next_sound hs e) h.2 hnext)

theorem record_eq (name : List Char) (process : Nat) (p : Try) :
    p.record name process =
      Text.utf8 (SyslogWriter.header p.clock name process) ++ Text.encode p.line := by
  have hheader : "<11>".toList ++ SyslogWriter.stamp p.clock ++ ' ' :: name ++ '[' ::
      Text.natural 10 process ++ "]: ".toList = SyslogWriter.header p.clock name process := by
    rw [SyslogWriter.header, SyslogWriter.recordPriority_spelled]
    rfl
  rw [Try.record, hheader]

theorem mem_tries {p : Try} (hp : p ∈ tries m w e) :
    e = .worker m ∧ ∃ x, w.members[m]? = some x ∧ x.state.worker = .writing p.line ∧
      p.clock = w.clock ∧ p.fault = serviceResult w m := by
  unfold tries at hp
  split at hp
  · rename_i k x hx
    split at hp
    · rename_i hk
      subst hk
      obtain ⟨l, hl, rfl⟩ := List.mem_map.mp hp
      exact ⟨rfl, x, hx, Logger.mem_inWrite.mp hl, rfl, rfl⟩
    · cases hp
  · cases hp

/-- A worker that has ended tries nothing more. -/
theorem ended_untried {es : List Event} (hs : w.shape.Sound) (h : machine.Valid w es)
    (hx : w.members[m]? = some x) (hended : Logger.Ended x.state.worker) :
    machine.history (tries m) w es = [] := by
  induction es generalizing w x with
  | nil => rfl
  | cons e es ih =>
    obtain ⟨hshare, d, hnext, -⟩ := next_member hs h.1 hx
    have hworker := (Logger.run_deserted hshare hended).worker
    have hnone : tries m w e = [] := by
      refine List.eq_nil_iff_forall_not_mem.mpr fun p hp => ?_
      obtain ⟨-, y, hy, hwriting, -⟩ := mem_tries hp
      obtain rfl := Option.some.inj (hx.symm.trans hy)
      rw [hwriting] at hended
      exact hended
    rw [Machine.history, hnone]
    exact ih (next_sound hs e) h.2 hnext (hworker ▸ hended)

theorem tries_worker (hx : w.members[m]? = some x) : tries m w (.worker m) =
    x.state.inWrite.map fun l => ⟨w.clock, l, serviceResult w m⟩ := by
  simp only [tries, hx, if_true]

theorem tries_other {k : Nat} (hk : k ≠ m) : tries m w (.worker k) = [] := by
  unfold tries
  split
  · rename_i j x hj hx
    cases hj
    exact if_neg hk
  · rfl

/-- A try sends its record once, or fails and sends nothing. -/
theorem try_sends {p : Try} (h : OnSyslog w m s kind) (named : s.ident.plain = pure name)
    (hp : p ∈ tries m w e) (ended : p.line.getLast? = some (.char '\n')) :
    ∃ err, p.fault = err.map Fault.system ∧
      w.network.Sends kind (p.record name s.process) (next w e).network err := by
  obtain ⟨rfl, x, hx, hwriting, hclock, hfault⟩ := mem_tries hp
  obtain ⟨err, hresult, hsends⟩ := World.write_onSyslog h named ended
  have hservice : w.service m x = w.write m p.line := by rw [World.service, hwriting]
  have hnetwork : (next w (.worker m)).network = (w.write m p.line).1.network := by
    rw [next, World.workerStep, hx]
    dsimp only
    rw [event_network, hservice]
  refine ⟨err, ?_, ?_⟩
  · rw [hfault, serviceResult, hx]
    dsimp only
    rw [hservice, hresult]
  · rw [hnetwork, record_eq, hclock]
    exact hsends

theorem service_network (hx : w.members[m]? = some x) :
    (w.service m x).1.network = w.network ∨
      ∃ l s, x.state.worker = .writing l ∧ x.destination = .syslog s := by
  have hflush : (w.flush m).1.network = w.network := by
    unfold World.flush
    split
    · split <;> rfl
    · rfl
  unfold World.service
  split
  · exact .inl rfl
  · exact .inl rfl
  · rename_i l hw
    cases hd : x.destination with
    | outlet o =>
      refine .inl ?_
      simp only [World.write, hx, hd]
      split <;> rfl
    | file f =>
      refine .inl ?_
      simp only [World.write, hx, hd]
      rfl
    | syslog s => exact .inr ⟨l, s, hw, rfl⟩
  · exact .inl hflush
  · obtain ⟨looks, notices, h⟩ := World.reported_frame w x _
    exact .inl (by rw [h])

/-- No other logger of the program writes to the system log. -/
def Alone (w : World) (m : Nat) : Prop :=
  ∀ (k : Nat) (y : Member) (s : SyslogWriter),
    w.members[k]? = some y → y.destination = .syslog s → k = m

theorem alone_before {es : List Event} (hs : w.shape.Sound) (h : machine.Valid w es)
    (alone : Alone (machine.after w es) m) : Alone w m := by
  -- Loggers stay where they are, so one on the system log would still be there at the end.
  intro k y s hy hd
  obtain ⟨-, d, hlast, hhome⟩ := run_member hs h hy
  rw [hd] at hhome
  cases d with
  | syslog s' => exact alone k _ s' hlast rfl
  | outlet | file => cases hhome

theorem turn_network {q : Nat × Logger.Event} (hp : part? w e = some q)
    (hworker : ∀ j, e ≠ .worker j) : (next w e).network = w.network := by
  obtain ⟨looks, hturn⟩ := turn_event hp hworker
  rw [hturn]
  exact event_network w q.1 q.2

/-- What an event of a program with one logger on the system log sends there. -/
theorem next_records (hs : w.shape.Sound) (h : OnSyslog w m s kind)
    (named : s.ident.plain = pure name) (alone : Alone w m)
    (ended : ∀ p ∈ tries m w e, p.line.getLast? = some (.char '\n')) :
    (next w e).network.records =
      w.network.records ++ (tries m w e).filterMap (Try.sent? name s.process) := by
  have hquiet : tries m w e = [] → (next w e).network.records = w.network.records →
      (next w e).network.records =
        w.network.records ++ (tries m w e).filterMap (Try.sent? name s.process) := by
    intro hnone hsame
    rw [hnone, hsame, List.filterMap_nil, List.append_nil]
  cases e with
  | worker k =>
    by_cases hk : k = m
    · subst hk
      obtain ⟨x, hx, -⟩ := h.member
      have htries := tries_worker hx
      cases hw : x.state.worker with
      | writing l =>
        let p : Try := ⟨w.clock, l, serviceResult w k⟩
        have hp : tries k w (.worker k) = [p] := by rw [htries, Logger.State.inWrite, hw]; rfl
        have hmem : p ∈ tries k w (.worker k) := hp ▸ List.mem_singleton_self p
        obtain ⟨err, hfault, hsends⟩ := try_sends h named hmem (ended p hmem)
        rw [hsends.records, hp, List.filterMap_cons, List.filterMap_nil, Try.sent?, hfault]
        cases err <;> rfl
      | reporting | receiving | flushing | ended =>
        refine hquiet (by rw [htries, Logger.State.inWrite, hw]; rfl) ?_
        rcases service_network hx with hsame | ⟨l, s', hwriting, -⟩
        · rw [next, World.workerStep, hx]
          dsimp only
          rw [event_network, hsame]
        · rw [hw] at hwriting
          cases hwriting
    · refine hquiet (tries_other hk) ?_
      rw [next, World.workerStep]
      split
      · rfl
      · rename_i y hy
        rcases service_network hy with hsame | ⟨l, s', -, hd⟩
        · rw [event_network, hsame]
        · exact absurd (alone k y s' hy hd) hk
  | make source a => exact hquiet rfl (World.construct_keeps hs.alone source a).records
  | setClock | disturb | note => exact hquiet rfl rfl
  | permit outlet n =>
    refine hquiet rfl ?_
    rw [next, World.grant]
    split <;> rfl
  | remark outlet e =>
    refine hquiet rfl ?_
    rw [next, World.remark]
    split <;> rfl
  | start | caller | collect | ownCall =>
    exact hquiet rfl (congrArg Network.records (turn_network rfl (by rintro _ ⟨⟩)))

theorem run_records {es : List Event} (hs : w.shape.Sound) (h : machine.Valid w es)
    (on : OnSyslog w m s kind) (named : s.ident.plain = pure name)
    (alone : Alone (machine.after w es) m)
    (ended : ∀ before e rest, es = before ++ e :: rest →
      ∀ p ∈ tries m (machine.after w before) e, p.line.getLast? = some (.char '\n')) :
    (machine.after w es).network.records = w.network.records ++
      (machine.history (tries m) w es).filterMap (Try.sent? name s.process) := by
  induction es generalizing w with
  | nil => exact (List.append_nil _).symm
  | cons e es ih =>
    have hnext := next_records hs on named (alone_before hs h alone) (ended [] e es rfl)
    have hrest := ih (next_sound hs e) h.2 (onSyslog_next hs h.1 on) alone
      fun before e' rest hes p hp => ended (e :: before) e' rest (by rw [hes]; rfl) p hp
    have hafter : machine.after w (e :: es) = machine.after (next w e) es := rfl
    have hhistory : machine.history (tries m) w (e :: es) =
      tries m w e ++ machine.history (tries m) (next w e) es := rfl
    rw [hafter, hrest, hnext, hhistory, List.filterMap_append, List.append_assoc]

theorem mem_share {n : Stamp} {le : Logger.Event} (h : (n, le) ∈ share m w e) :
    part? w e = some (m, le) := by
  unfold share at h
  split at h
  · rename_i k le' hp
    split at h
    · rename_i hk
      obtain ⟨-, rfl⟩ := Prod.mk.inj (List.mem_singleton.mp h)
      rw [hp, hk]
    · cases h
  · cases h

theorem mem_run {es : List Event} {n : Stamp} {le : Logger.Event}
    (h : (n, le) ∈ machine.history (share m) w es) :
    ∃ e ∈ es, ∃ u, part? u e = some (m, le) := by
  obtain ⟨k, hk⟩ := List.getElem?_of_mem h
  obtain ⟨before, e, rest, j, rfl, -, hj⟩ := machine.history_getElem hk
  exact ⟨e, by simp, _, mem_share (List.mem_of_getElem? hj)⟩

/-- No write to the system log fails with a fault that ends the worker. -/
theorem service_handled (h : OnSyslog w m s kind) (named : s.ident.plain = pure name) :
    (Logger.Event.worker (serviceResult w m)).isHandled = true := by
  obtain ⟨x, hx, hd⟩ := h.member
  rw [serviceResult, hx]
  dsimp only
  unfold World.service
  split
  · rfl
  · rfl
  · rename_i l hw
    have hends := World.write_syslog_ends hx hd l
    rw [SyslogWriter.Ends, named] at hends
    exact Logger.Event.worker_isHandled hends
  · have hflush : (w.flush m).2 = none := by
      unfold World.flush
      split
      · rename_i t o hfound
        rw [hx] at hfound
        obtain rfl := Option.some.inj hfound
        cases hd
      · rfl
    rw [hflush]
    rfl
  · rfl

theorem run_handled {es : List Event} (hs : w.shape.Sound) (h : machine.Valid w es)
    (hon : OnSyslog w m s kind) (named : s.ident.plain = pure name) :
    ∀ e ∈ machine.history (share m) w es, e.2.isHandled = true := by
  induction es generalizing w with
  | nil =>
    rintro e ⟨⟩
  | cons e es ih =>
    rintro ⟨n, le⟩ hle
    rcases List.mem_append.mp hle with hfirst | hrest
    · have hpart := mem_share hfirst
      cases e with
      | worker =>
        cases hpart
        exact service_handled hon named
      | start | caller | collect | ownCall =>
        cases hpart
        rfl
      | make | setClock | permit | disturb | note | remark => cases hpart
    · exact ih (next_sound hs e) h.2 (onSyslog_next hs h.1 hon) _ hrest

theorem run_start {es : List Event} {n : Stamp} {t : Thread} {i : Invocation}
    (h : (n, .start t i) ∈ machine.history (share m) w es) : .start m t i ∈ es := by
  obtain ⟨e, he, u, hp⟩ := mem_run h
  cases e with
  | start =>
    cases hp
    exact he
  | _ => cases hp

theorem run_keeps_flags {es : List Event} (keeps : ∀ e ∈ es, setsFlagsOf m e = false) :
    ∀ e ∈ machine.history (share m) w es, e.2.setsFlags = false := by
  rintro ⟨n, le⟩ hle
  obtain ⟨e, he, u, hp⟩ := mem_run hle
  cases e with
  | start | ownCall =>
    cases hp
    simpa [setsFlagsOf, Logger.Event.setsFlags] using keeps _ he
  | caller | collect | worker =>
    cases hp
    rfl
  | make | setClock | permit | disturb | note | remark => cases hp

/-- Each line that a worker tries to write ends with a newline, so a stream adds none. -/
theorem tries_ended {es : List Event} {mode : Mode} {o : Options} {d : Destination}
    (hs : w.shape.Sound) (h : machine.Valid w es)
    (hx : w.members[m]? = some ⟨Logger.initial (m + 1) mode o, d⟩)
    (keeps : ∀ e ∈ es, setsFlagsOf m e = false) (syslog : o.flags.has .syslog = true)
    (before : List Event) (e : Event) (rest : List Event) (hes : es = before ++ e :: rest) :
    ∀ p ∈ tries m (machine.after w before) e, p.line.getLast? = some (.char '\n') := by
  subst hes
  intro p hp
  obtain ⟨hbefore, -⟩ := (machine.valid_append _ _ _).mp h
  obtain ⟨hpast, d', hmiddle, -⟩ := run_member hs hbefore hx
  obtain ⟨-, y, hy, hwriting, -⟩ := mem_tries hp
  obtain rfl := Option.some.inj (hmiddle.symm.trans hy)
  exact Logger.inWrite_ended hpast (run_keeps_flags fun e he => keeps e (by simp [he])) syslog
    (Logger.mem_inWrite.mpr hwriting)

end

/-- What has come of the lines of a logger on the system log, made with `wanted` in the program `v`,
in the run `rest` since. -/
structure Recorded (v : World) (rest : List Event) (m : Nat) (wanted : Wanted) (kind : SocketKind)
    (process : Nat) (name : List Char) (x : Member) : Prop where
  socket : ∃ s, x.destination = .syslog s ∧
    (machine.after v rest).network.sockets[s.socket]? = some ⟨kind, true⟩
  /-- The options are as they were asked for, and the one for the system log is among them. -/
  flags : ∃ f, Flags.Stands wanted.flags f ∧ x.state.options.flags = f.union (.single .syslog)
  /-- No line has a tag or a timestamp. -/
  unadorned : ∀ l ∈ x.state.handedOff.map Prod.snd,
    ∃ t i, .start m t i ∈ rest ∧ Unadorned x.state.options.flags i l
  /-- Each line is tried once, in the order in which they were handed off. -/
  tried : (machine.history (tries m) v rest).map Try.line ++ x.state.inWrite = x.state.attempts
  order : x.state.attempts <+: x.state.handedOff.map Prod.snd
  whole : ∀ l ∈ x.state.attempts, Text.isWhole l = true
  /-- If the worker has ended, then at the next line, which UTF-8 has no bytes for. -/
  lost : Logger.Ended x.state.worker → ∃ l, Text.isWhole l = false ∧
    x.state.attempts ++ [l] <+: x.state.handedOff.map Prod.snd
  /-- A try is one send of the record, or it fails and nothing is sent. -/
  sent : ∀ before e after p, rest = before ++ e :: after →
    p ∈ tries m (machine.after v before) e → ∃ err, p.fault = err.map Fault.system ∧
      (machine.after v before).network.Sends kind (p.record name process)
        (machine.after v (before ++ [e])).network err
  /-- If there is no other logger on the system log, it gets the records of all tries that have not
  failed, and nothing else. -/
  alone : Alone (machine.after v rest) m → (machine.after v rest).network.records =
    v.network.records ++
      (machine.history (tries m) v rest).filterMap (Try.sent? name process)

def systemLog (address : Value) (ident : Option String) : Source :=
  .syslog address (ident.elim .none .text)

def streamProgram : World :=
  { World.bareProgram with network := ⟨true, [("/dev/log", .stream)], 0, [], [], [], false⟩ }

def shortFile : Wanted := ⟨.priority .info, .text "", .flags (.single .shortFile)⟩

def troubled : List Event :=
  let main : Thread := .caller 0
  let step (k : Nat) : List Event := List.replicate k (.caller 0 main)
  let work (k : Nat) : List Event := List.replicate k (.worker 0)
  let logs (text : String) : List Event :=
    [.start 0 main ⟨.leveled .error (.text text) [], [⟨"/d/x", some 7, none, "f"⟩], [], .usual⟩] ++
      step 7 ++ work 2 ++ step 3 ++ work 2 ++ step 1 ++ [.collect 0 main]
  work 3 ++ [.disturb 1] ++ logs "a" ++ work 3 ++ logs "b"

def silenced : List Event :=
  let main : Thread := .caller 0
  let step (k : Nat) : List Event := List.replicate k (.caller 0 main)
  let work (k : Nat) : List Event := List.replicate k (.worker 0)
  work 3 ++ [.start 0 main ⟨.leveled .error (.text "%c") [.int 0xd800], [], [], .usual⟩] ++
    step 7 ++ work 2 ++ step 3 ++ work 1

end Program

end LeveledLog
