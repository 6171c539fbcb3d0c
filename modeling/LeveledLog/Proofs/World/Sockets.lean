import LeveledLog.Proofs.Text.Encoding
import LeveledLog.Proofs.World.Activation

/-!
Sockets of the system log. The making of loggers only adds sockets, and sends nothing. A logger on
the system log has a socket of its own that is never closed. A line that is written there is one
send on a datagram socket or one send of all on a stream, or it fails and nothing is sent.
-/

namespace LeveledLog

open Render (Ensures ensures_bind ensures_pure)

theorem modify_last {α : Type} (l : List α) (a : α) (g : α → α) :
    (l ++ [a]).modify l.length g = l ++ [g a] := by
  induction l with
  | nil => rfl
  | cons b l ih => exact congrArg (b :: ·) ih

theorem Text.encode_ended {l : List CodePoint} (h : l.getLast? = some (.char '\n')) :
    (encode l).getLast? = some 0x0a := by
  obtain ⟨before, rfl⟩ := List.getLast?_eq_some_iff.mp h
  have hnewline : encode [.char '\n'] = [0x0a] := by decide
  rw [encode_append, hnewline, List.getLast?_concat]

namespace Network

/-- There may be more sockets, and nothing has been sent. -/
structure Keeps (n n' : Network) : Prop where
  sockets : n.sockets <+: n'.sockets
  records : n'.records = n.records

/-- What an attempt to open a socket comes to: the old sockets are still there, and the new one is
open if it is connected. -/
def Opened (n : Network) (p : Network × Except Fault Nat) : Prop :=
  n.sockets <+: p.1.sockets ∧
    ∀ id, p.2 = .ok id → ∃ kind, p.1.sockets[id]? = some ⟨kind, true⟩

section

variable {n n' n'' : Network}

theorem Keeps.refl (n : Network) : n.Keeps n := ⟨List.prefix_rfl, rfl⟩

theorem Keeps.trans (h : n.Keeps n') (k : n'.Keeps n'') : n.Keeps n'' :=
  ⟨h.sockets.trans k.sockets, k.records.trans h.records⟩

theorem close_last {k : SocketKind} (h : n'.sockets = n.sockets ++ [⟨k, true⟩]) :
    n.sockets <+: (n'.close n.sockets.length).sockets := by
  have hclosed : (n'.close n.sockets.length).sockets = n.sockets ++ [⟨k, false⟩] := by
    change n'.sockets.modify n.sockets.length _ = _
    rw [h, modify_last]
  rw [hclosed]
  exact List.prefix_append _ _

theorem attempt_opened (n : Network) (kind : SocketKind) (address : Value) :
    Ensures n.Opened (n.attempt kind address) := by
  have hgrown : n.sockets <+: n.sockets ++ [⟨kind, true⟩] := List.prefix_append _ _
  unfold attempt
  split
  · exact ensures_pure ⟨List.prefix_rfl, by rintro id ⟨⟩⟩
  · refine ensures_bind _ fun text => ?_
    cases text with
    | error f =>
      dsimp only
      split <;> refine ensures_pure ⟨?_, by rintro id ⟨⟩⟩
      · exact close_last rfl
      · exact hgrown
    | ok text =>
      dsimp only
      split
      · refine ensures_pure ⟨hgrown, ?_⟩
        rintro id ⟨⟩
        exact ⟨kind, List.getElem?_concat_length⟩
      · split <;> refine ensures_pure ⟨?_, by rintro id ⟨⟩⟩
        · exact close_last rfl
        · exact hgrown

theorem connect_opened (n : Network) (address : Value) :
    Ensures n.Opened (n.connect address) := by
  refine (n.attempt_opened .datagram address).bind ?_
  rintro ⟨u, result⟩ hu
  cases result with
  | ok id => exact ensures_pure hu
  | error f =>
    dsimp only
    split
    · exact fun k p hp => ⟨hu.1.trans (u.attempt_opened .stream address k p hp).1,
        (u.attempt_opened .stream address k p hp).2⟩
    · exact ensures_pure hu

end

end Network

def SocketKind.sends (record : List UInt8) : SocketKind → NetworkEvent
  | datagram => .send record
  | stream => .sendAll record

/-- How a try to send a record ends: it is sent once, or it fails and nothing is sent. -/
inductive Network.Sends (n : Network) (kind : SocketKind) (record : List UInt8) :
    Network → Option SystemError → Prop where
  | sent {n' : Network} (once : n'.events = n.events ++ [kind.sends record]) :
      Sends n kind record n' none
  | failed {n' : Network} {e : SystemError} (nothing : n'.events = n.events) :
      Sends n kind record n' (some e)

theorem Network.Sends.records {n n' : Network} {k : SocketKind} {record : List UInt8}
    {e : Option SystemError} (h : n.Sends k record n' e) :
    n'.records = n.records ++ if e.isNone then [record] else [] := by
  cases h with
  | sent once =>
    rw [Network.records, once, List.filterMap_append]
    cases k <;> rfl
  | failed nothing =>
    rw [Network.records, nothing]
    exact (List.append_nil _).symm

theorem Network.send_sends {n : Network} {id : Nat} {k : SocketKind} {record : List UInt8}
    (socket : n.sockets[id]? = some ⟨k, true⟩) (ended : record.getLast? = some 0x0a) :
    Sends n k record (n.send id record).1 (n.send id record).2 := by
  have hopen : n.isOpen id = true := by simp [isOpen, socket]
  have hkind : n.kind id = k := by simp [kind, socket]
  have hterminated : terminated record = record := if_pos ended
  unfold send
  rw [hopen, hkind, hterminated]
  cases n.failures with
  | succ failures => exact .failed rfl
  | zero => cases k <;> exact .sent rfl

namespace SyslogWriter

def identOf (program : List String) (ident : Value) : Value :=
  match ident with
  | .none => defaultIdent program
  | ident => ident

/-- What a connection comes to. The old sockets are still there; a new writer has one that is open,
and sends as the process under the name that it was given. -/
structure Connects (n : Network) (program : List String) (process : Nat) (ident : Value)
    (p : Network × Except Fault SyslogWriter) : Prop where
  keeps : n.Keeps p.1
  writer : ∀ s, p.2 = .ok s → s.ident = identOf program ident ∧ s.process = process ∧
    ∃ kind, p.1.sockets[s.socket]? = some ⟨kind, true⟩

theorem connect_connects (n : Network) (program : List String) (process : Nat)
    (address ident : Value) :
    Ensures (Connects n program process ident) (connect n program process address ident) := by
  have hopened : Ensures (fun p => n.sockets <+: p.1.sockets ∧ ∀ s, p.2 = .ok s →
      s.ident = identOf program ident ∧ s.process = process ∧
        ∃ kind, p.1.sockets[s.socket]? = some ⟨kind, true⟩)
      (connect n program process address ident) := by
    unfold connect
    dsimp only
    split
    · exact ensures_bind _ fun f => ensures_pure ⟨List.prefix_rfl, by rintro s ⟨⟩⟩
    · refine (n.connect_opened address).bind ?_
      rintro ⟨u, result⟩ hu
      cases result with
      | ok socket =>
        refine ensures_pure ⟨hu.1, ?_⟩
        rintro s ⟨⟩
        refine ⟨?_, rfl, hu.2 socket rfl⟩
        cases ident <;> rfl
      | error f =>
        dsimp only
        split
        · exact ensures_bind _ fun f => ensures_pure ⟨hu.1, by rintro s ⟨⟩⟩
        · exact ensures_pure ⟨hu.1, by rintro s ⟨⟩⟩
  have hrecords := connect_records n program process address ident
  exact fun k p hp => ⟨⟨(hopened k p hp).1, hrecords k p hp⟩, (hopened k p hp).2⟩

end SyslogWriter

namespace World

section

variable {w v : World} {m : Nat} {x : Member} {a : Wanted}

theorem addWith_network (w : World) (r : Render Options) (d : Destination) :
    (w.addWith r d).1.network = w.network := by
  obtain ⟨looks, members, hadded⟩ := addWith_frame w r d
  rw [hadded]

theorem onOutlet_network (w : World) (name : String) (a : Wanted) :
    (w.onOutlet name a).1.network = w.network := by
  rcases onOutlet_cases w name a with ⟨o, v, m, -, -, hadd, hmade⟩ | ⟨looks, f, hfailed⟩
  · have hadded := addWith_network w (a.options w.host) (.outlet name)
    rw [hadd] at hadded
    rw [hmade]
    exact hadded
  · rw [hfailed]

theorem onFile_network (w : World) (path : Value) (a : Wanted) :
    (w.onFile path a).1.network = w.network := by
  rcases onFile_cases w path a with ⟨p, files, -, -, hmade⟩ | ⟨-, looks, f, hfailed⟩
  · rw [hmade]
    exact addWith_network _ _ _
  · rw [hfailed]

theorem onSyslog_keeps (w : World) (address ident : Value) (a : Wanted) :
    w.network.Keeps (w.onSyslog address ident a).1.network := by
  have hconnects := SyslogWriter.connect_connects w.network w.program w.process address ident
  rw [onSyslog_eq]
  dsimp only
  split
  · exact Network.Keeps.refl _
  · rename_i network f hconnect
    exact (hconnects 0 _ hconnect).keeps
  · rename_i network s hconnect
    rw [addWith_network]
    exact (hconnects 0 _ hconnect).keeps

/-- Making a logger sends nothing and closes no socket of another one. -/
theorem construct_keeps (alone : w.target = none) (source : Source) (a : Wanted) :
    w.network.Keeps (w.construct source a).1.network := by
  rcases construct_unrouted w source a with ⟨route, r, hreads⟩ | ⟨looks, f, hrefused⟩
  · obtain ⟨v, hprepared, hmade⟩ := construct_routed alone hreads
    rw [hmade, ← hprepared.network]
    cases route with
    | outlet name => exact (onOutlet_network v name r) ▸ Network.Keeps.refl _
    | file path => exact (onFile_network v path r) ▸ Network.Keeps.refl _
    | syslog address ident => exact onSyslog_keeps v address ident r
  · rw [hrefused]
    exact Network.Keeps.refl _

/-- A logger on the system log, whose socket is of a kind and open, and which sends under a name. -/
structure OnSyslog (w : World) (m : Nat) (s : SyslogWriter) (kind : SocketKind) : Prop where
  member : ∃ x, w.members[m]? = some x ∧ x.destination = .syslog s
  socket : w.network.sockets[s.socket]? = some ⟨kind, true⟩

theorem onSyslog_made {address ident : Value} (h : (w.onSyslog address ident a).2 = .ok m) :
    ∃ o s kind, Granted a (.single .syslog) o ∧
      (w.onSyslog address ident a).1.members[m]? =
        some ⟨Logger.initial (m + 1) .bytes o, .syslog s⟩ ∧
      (w.onSyslog address ident a).1.OnSyslog m s kind ∧
      s.ident = SyslogWriter.identOf w.program ident ∧ s.process = w.process := by
  have hconnects := SyslogWriter.connect_connects w.network w.program w.process address ident
  rw [onSyslog_eq] at h ⊢
  dsimp only at h ⊢
  split at h
  · cases h
  · cases h
  · rename_i network s hconnect
    obtain ⟨hident, hprocess, kind, hsocket⟩ := (hconnects 0 _ hconnect).writer s rfl
    rcases syslogOptions_cases w.host a with ⟨o, ho, hgranted⟩ | hfails
    · rw [ho, addWith_pure] at h ⊢
      cases h
      have hmember : ∀ {members : List Member} {y : Member},
          (members ++ [y])[members.length]? = some y := List.getElem?_concat_length
      exact ⟨o, s, kind, hgranted, hmember, ⟨⟨_, hmember, rfl⟩, hsocket⟩, hident, hprocess⟩
    · obtain ⟨looks, f, hfailed⟩ := addWith_fails hfails _ (.syslog s)
      rw [hfailed] at h
      cases h

/-- A line that a worker writes to the system log is one record there, with what the clock shows, or
the write fails and there is none. -/
theorem write_onSyslog {s : SyslogWriter} {kind : SocketKind} {name : List Char}
    {line : List CodePoint} (h : w.OnSyslog m s kind) (named : s.ident.plain = pure name)
    (ended : line.getLast? = some (.char '\n')) :
    ∃ e, (w.write m line).2 = e.map Fault.system ∧
      w.network.Sends kind
        (Text.utf8 (SyslogWriter.header w.clock name s.process) ++ Text.encode line)
        (w.write m line).1.network e := by
  obtain ⟨x, hx, hd⟩ := h.member
  let record := Text.utf8 (SyslogWriter.header w.clock name s.process) ++ Text.encode line
  let sent := w.network.send s.socket record
  have hended : record.getLast? = some 0x0a := by
    rw [List.getLast?_append, Text.encode_ended ended, Option.some_or]
  have hsends := Network.send_sends h.socket hended
  have hwrite : s.write w.network w.clock (Text.encode line) =
      pure (sent.1, sent.2.elim (.ok (Text.encode line).length) fun e => .error (.system e)) := by
    rw [SyslogWriter.write, named, pure_bind]
    dsimp only [sent, record]
    split <;> simp_all
  have hrender : w.write m line =
      ({ w with network := sent.1 }, sent.2.map Fault.system) := by
    simp only [write, hx, hd, hwrite]
    cases hsent : sent.2 with
    | none => rfl
    | some e => rfl
  exact ⟨sent.2, congrArg Prod.snd hrender, by rw [hrender]; exact hsends⟩

end

end World

end LeveledLog
