import LeveledLog.Proofs.World.Connections
import LeveledLog.Proofs.World.Lasting

/-!
Accounts of the sockets that are opened when a logger on the system log is asked for. A logger has
the only new one that is open. A failure to connect closes all of them, but what fails after that
closes nothing: a connected socket stays open when the options turn out to be no options.
-/

namespace LeveledLog

namespace World

open Network Route

/-- How the sockets are accounted for that were opened to make a logger on the system log. -/
structure Accounts (n : Network) (host : Host) (address : Value) (a : Wanted)
    (result : World × Except Fault Nat) : Prop where
  /-- The new sockets are those of the attempts. -/
  sockets : result.1.network.sockets = n.sockets ++ n.opened address
  order : (n.opened address).map Socket.kind <+: n.kinds
  untried : n.last address = none ↔ n.supported = false
  /-- Whether there is a logger is for the last attempt to say, and then for the options. -/
  connected : (∃ m, result.2 = .ok m) ↔
    n.last address = some .connected ∧ ∃ o, (syslogOptions host a).outcome = .ok o
  /-- A logger has the only new socket that is open. -/
  made : ∀ m, result.2 = .ok m → ∃ x s, result.1.members[m]? = some x ∧
    x.destination = .syslog s ∧ ∀ id, n.Left result.1.network id ↔ id = s.socket
  /-- A failure leaves no socket open, unless one was connected, or something but the system was
  against it. -/
  failed : ∀ f, result.2 = .error f →
    ((∃ id, n.Left result.1.network id) ↔ ∃ r, n.last address = some r ∧ r.Holds)
  /-- The system log is told to be out of reach if the system refused the last attempt, or if there
  was nothing to try. -/
  unreached : ∀ who cause, result.2 = .error (.cannotConnect who cause) ↔
    n.last address = cause.map .refused ∧ SyslogWriter.called address = .ok who

section

variable {n n' : Network} {host : Host} {address : Value} {a r : Wanted} {w u : World}
  {source : Source}

theorem left_exists (h : n'.sockets = n.sockets ++ n.opened address) :
    (∃ id, n.Left n' id) ↔ ∃ r, n.last address = some r ∧ r.Holds := by
  obtain ⟨closed, hclosed, ⟨hleft, hnot⟩ | ⟨k, r, hleft, hr, hholds⟩⟩ :=
    leftBy_cases (n.reply address) n.kinds
  · rw [opened, hleft] at h
    refine iff_of_false ?_ ?_
    · rintro ⟨id, hid⟩
      exact not_left_of_closed h hclosed id hid
    · rintro ⟨r, hr, hholds⟩
      exact hnot r hr hholds
  · rw [opened, hleft] at h
    exact iff_of_true ⟨_, (left_iff_last h hclosed _).mpr rfl⟩ ⟨r, hr, hholds⟩

/-- The socket of a new logger is the only one that is left open. -/
theorem left_connected (h : n'.sockets = n.sockets ++ n.opened address)
    (hlast : n.last address = some .connected) (id : Nat) :
    n.Left n' id ↔ id = (n.sockets ++ n.opened address).length - 1 := by
  obtain ⟨closed, hclosed, ⟨-, hnot⟩ | ⟨k, r, hleft, -, -⟩⟩ :=
    leftBy_cases (n.reply address) n.kinds
  · exact absurd .connected (hnot _ hlast)
  · rw [opened, hleft] at h
    have hnumber : (n.sockets ++ n.opened address).length - 1 =
        n.sockets.length + closed.length := by
      rw [opened, hleft]
      simp
    rw [hnumber]
    exact left_iff_last h hclosed id

theorem accounts_failed {f : Fault} (hsockets : u.network.sockets = n.sockets ++ n.opened address)
    (hnot : ¬(n.last address = some .connected ∧ ∃ o, (syslogOptions host a).outcome = .ok o))
    (hunreached : ∀ who cause, f = .cannotConnect who cause ↔
      n.last address = cause.map .refused ∧ SyslogWriter.called address = .ok who) :
    Accounts n host address a (u, .error f) := by
  refine ⟨hsockets, leftBy_order _ _, last_eq_none_iff, iff_of_false ?_ hnot, ?_, ?_, ?_⟩
  · rintro ⟨m, ⟨⟩⟩
  · rintro m ⟨⟩
  · rintro g ⟨⟩
    exact left_exists hsockets
  · intro who cause
    rw [Except.error.injEq]
    exact hunreached who cause

theorem not_refused (cause : Option SystemError) : some Reply.connected ≠ cause.map .refused := by
  cases cause <;> simp

/-- Once a socket is connected, only the options can be in the way of a logger. -/
theorem addWith_accounts (v : World) (s : SyslogWriter)
    (hsockets : v.network.sockets = n.sockets ++ n.opened address)
    (hlast : n.last address = some .connected)
    (hsocket : s.socket = (n.sockets ++ n.opened address).length - 1) :
    Accounts n host address a (v.addWith (syslogOptions host a) (.syslog s)) := by
  have hcause : ∀ cause : Option SystemError, n.last address ≠ cause.map .refused := by
    rw [hlast]
    exact not_refused
  rw [addWith_eq]
  cases hoptions : (syslogOptions host a).outcome with
  | error f =>
    have hrun : ((syslogOptions host a).run.run 0).1 = .error f := hoptions
    rw [hrun]
    refine accounts_failed hsockets ?_ fun who cause => iff_of_false ?_ fun h => hcause cause h.1
    · rintro ⟨-, o, ho⟩
      rw [hoptions] at ho
      cases ho
    · rintro rfl
      cases (syslogOptions_steady host a).fails _ hoptions with
      | look hlook => cases hlook
  | ok o =>
    have hrun : ((syslogOptions host a).run.run 0).1 = .ok o := hoptions
    rw [hrun]
    refine ⟨hsockets, leftBy_order _ _, last_eq_none_iff,
      iff_of_true ⟨_, rfl⟩ ⟨hlast, o, hoptions⟩, ?_, ?_, ?_⟩
    · rintro m ⟨⟩
      refine ⟨_, s, List.getElem?_concat_length, rfl, fun id => ?_⟩
      rw [hsocket]
      exact left_connected hsockets hlast id
    · rintro f ⟨⟩
    · intro who cause
      refine iff_of_false ?_ fun h => hcause cause h.1
      rintro ⟨⟩

theorem onSyslog_accounts (w : World) (address ident : Value) (a : Wanted) :
    Accounts w.network w.host address a (w.onSyslog address ident a) := by
  obtain ⟨events, result, hyields, hreaches⟩ :=
    SyslogWriter.connect_reaches w.network w.program w.process address ident
  have hrun := hyields 0
  rw [onSyslog_eq]
  dsimp only
  rw [hrun]
  generalize hlast : w.network.last address = last at hreaches
  have hfailed : ∀ {f : Fault} {looks : Nat}, last ≠ some .connected →
      (∀ who cause, f = .cannotConnect who cause ↔
        last = cause.map .refused ∧ SyslogWriter.called address = .ok who) →
      Accounts w.network w.host address a
        ({ w with looks, network := w.network.grown (w.network.opened address) events },
          .error f) := by
    intro f looks hnot hunreached
    refine accounts_failed rfl ?_ ?_
    · rintro ⟨hconnected, -⟩
      exact hnot (hlast.symm.trans hconnected)
    · rw [hlast]
      exact hunreached
  cases hreaches with
  | connected hs => exact addWith_accounts _ _ rfl hlast hs
  | untried =>
    refine hfailed (by simp) fun who cause => ?_
    rw [SyslogWriter.unreached_iff]
    cases cause <;> simp
  | refused e =>
    refine hfailed (by simp) fun who cause => ?_
    rw [SyslogWriter.unreached_iff]
    cases cause <;> simp
  | unopened e =>
    refine hfailed (by simp) fun who cause => ?_
    cases cause <;> simp
  | broken f =>
    refine hfailed (by simp) fun who cause => ?_
    obtain ⟨kind, -, hkind⟩ := Option.map_eq_some_iff.mp hlast
    refine iff_of_false (reply_broken hkind who cause) ?_
    cases cause <;> simp

theorem Accounts.of_quiet {result : World × Except Fault Nat} (h : Accounts n host address a result)
    (hquiet : n.quiet = n'.quiet) : Accounts n' host address a result := by
  obtain ⟨supported, listeners, failures, sockets, events, unopenable, strict⟩ := n
  obtain ⟨supported', listeners', failures', sockets', events', unopenable', strict'⟩ := n'
  obtain ⟨rfl, rfl, -, rfl, -, rfl, rfl⟩ := Network.mk.inj hquiet
  exact ⟨h.sockets, h.order, h.untried, h.connected, h.made, h.failed, h.unreached⟩

/-- What a connection depends on, and no turn changes. -/
def surroundings (w : World) : Network × Host := (w.network.quiet, w.host)

theorem write_surroundings (w : World) (m : Nat) (line : List CodePoint) :
    (w.write m line).1.surroundings = w.surroundings := by
  unfold write
  split
  · rfl
  · split
    · split <;> rfl
    · rfl
    · have hsent : ∀ {u : World} {k : Network} {r : Except Fault Nat} {s : SyslogWriter},
          w.render (s.write w.network w.clock (Text.encode line)) = (u, .ok (k, r)) →
            { u with network := k }.surroundings = w.surroundings := by
        intro u k r s hrender
        have hhost : u.host = w.host := congrArg (·.1.host) hrender.symm
        exact Prod.ext (SyslogWriter.write_quiet (congrArg Prod.snd hrender)) hhost
      split
      · rename_i u f hrender
        exact congrArg (·.1.surroundings) hrender.symm
      · exact hsent ‹_›
      · exact hsent ‹_›

theorem surroundings_last : Lasting surroundings := by
  refine ⟨fun _ _ => rfl, fun _ _ => rfl, fun _ _ => rfl, fun _ _ => rfl, ?_, write_surroundings⟩
  intro w m e
  have hhost : (w.event m e).host = w.host := congrArg Shape.host (event_shape w m e)
  exact Prod.ext (congrArg Network.quiet (event_network w m e)) hhost

theorem construct_syslog {ident : Value}
    (h : Reads w.environment source a (.syslog address ident) r) :
    ∃ v : World, v.surroundings = w.surroundings ∧
      w.construct source a = v.onSyslog address ident r := by
  cases h with
  | syslog => exact ⟨w, rfl, rfl⟩
  | namedSyslog _ htext hword =>
    refine ⟨w, rfl, ?_⟩
    rw [construct, onNamed_text htext, if_pos ((isSyslog_iff _).mpr hword)]
  | @settings given s _ _ hloaded hleads =>
    obtain ⟨looks, hread⟩ := render_eq w (Settings.load .standard ⟨given, w.environment⟩)
    refine ⟨announceSettings { w with looks } s, surroundings_last.announceSettings _ s, ?_⟩
    rw [construct, hread, hloaded]
    exact onSettings_leads hleads _

/-- All new sockets are accounted for, however a logger on the system log is asked for. The message
of a failure to reach the system log is that of the last attempt. -/
theorem sockets_accounted {ident : Value}
    (h : Reads w.environment source a (.syslog address ident) r) :
    Accounts w.network w.host address r (w.construct source a) ∧
      ∀ (cause : Option SystemError) who, w.network.last address = cause.map .refused →
        SyslogWriter.called address = .ok who →
          ∃ f, (w.construct source a).2 = .error f ∧
            f.message? = some ("Can't open SYSLOG connection: " ++
              cause.elim "unix sockets are not supported" SystemError.message) := by
  obtain ⟨v, hsame, hmade⟩ := construct_syslog h
  obtain ⟨hquiet, hhost⟩ := Prod.mk.inj hsame
  have haccounts : Accounts w.network w.host address r (w.construct source a) := by
    rw [hmade, ← hhost]
    exact (onSyslog_accounts v address ident r).of_quiet hquiet
  refine ⟨haccounts, fun cause who hlast hcalled => ?_⟩
  refine ⟨_, (haccounts.unreached who cause).mpr ⟨hlast, hcalled⟩, ?_⟩
  cases cause with
  | none => exact congrArg some (by decide)
  | some e => rfl

end

def logged (listener : Listener) : World :=
  { bareProgram with network := ⟨true, [("/dev/log", listener)], 0, [], [], [], false⟩ }

theorem stream_accounted :
    let made := (logged .stream).construct (.named (.text "syslog")) Wanted.standard
    Reads (logged .stream).environment (.named (.text "syslog")) Wanted.standard
        (.syslog (.text Settings.defaultAddress) .none) Wanted.standard ∧
      made.1.network.sockets = [⟨.datagram, false⟩, ⟨.stream, true⟩] ∧
      Accounts (logged .stream).network .usual
        (.text Settings.defaultAddress) Wanted.standard made := by
  have hreads : Reads (logged .stream).environment (.named (.text "syslog")) Wanted.standard
      (.syslog (.text Settings.defaultAddress) .none) Wanted.standard :=
    .namedSyslog (s := "syslog") _ rfl (by decide)
  exact ⟨hreads, by decide +kernel, (sockets_accounted hreads).1⟩

/-- A failure leaves a socket open. -/
theorem unranked_leaks :
    let made := (logged .datagram).construct (.syslog (.text "/dev/log") .none) unranked
    (∃ f, made.2 = .error f) ∧ (logged .datagram).network.Left made.1.network 0 := by
  intro made
  have hrefused : made.2.toOption = none := by decide +kernel
  constructor
  · cases hmade : made.2 with
    | error f => exact ⟨f, rfl⟩
    | ok m =>
      rw [hmade] at hrefused
      cases hrefused
  · refine ⟨Nat.zero_le _, ?_⟩
    decide +kernel

end World

end LeveledLog
