import LeveledLog.Proofs.Value.Looks
import LeveledLog.Proofs.World.Sockets

/-!
Connections to the system log. One socket is opened for each attempt, and closed again when the
system refuses it; then the next kind of socket is tried. The reply to the last attempt says what
comes of a connection, and which socket is left open.
-/

namespace LeveledLog

open Render (Yields Steady yields_pure)

namespace Network

/-- How the system takes an attempt to connect a socket. -/
inductive Reply where
  /-- No socket could be made. -/
  | unopened (e : SystemError)
  | connected
  | refused (e : SystemError)
  /-- Something else went wrong. -/
  | broken (f : Fault)

namespace Reply

def ofFault (f : Fault) : Reply :=
  match f.systemError? with
  | some e => .refused e
  | none => .broken f

/-- The socket that is there after an attempt. Only one that was refused is closed. -/
def leaves (kind : SocketKind) : Reply → List Socket
  | unopened _ => []
  | connected => [⟨kind, true⟩]
  | refused _ => [⟨kind, false⟩]
  | broken _ => [⟨kind, true⟩]

inductive Ends (id : Nat) : Reply → Except Fault Nat → Prop where
  | unopened (e : SystemError) : Ends id (.unopened e) (.error (.noSocket e))
  | connected : Ends id .connected (.ok id)
  | refused {f : Fault} {e : SystemError} (h : f.systemError? = some e) :
      Ends id (.refused e) (.error f)
  | broken {f : Fault} (h : f.systemError? = none) : Ends id (.broken f) (.error f)

inductive Holds : Reply → Prop where
  | connected : Holds .connected
  | broken (f : Fault) : Holds (.broken f)

theorem ofFault_ends (id : Nat) (f : Fault) : Ends id (ofFault f) (.error f) := by
  unfold ofFault
  split
  · rename_i e h
    exact .refused h
  · rename_i h
    exact .broken h

/-- The socket that is connected is the last one. -/
theorem Ends.last {reply : Reply} {sockets : List Socket} {result : Except Fault Nat}
    (h : reply.Ends sockets.length result) (kind : SocketKind) :
    reply.Ends ((sockets ++ reply.leaves kind).length - 1) result := by
  cases h with
  | unopened e => exact .unopened e
  | refused he => exact .refused he
  | broken hf => exact .broken hf
  | connected =>
    have hlength : (sockets ++ leaves kind Reply.connected).length - 1 = sockets.length := by
      simp [leaves]
    rw [hlength]
    exact .connected

theorem Ends.given_up {reply : Reply} {id : Nat} {f : Fault} (h : reply.Ends id (.error f))
    (hended : ∀ e, reply ≠ .refused e) : f.systemError? = none := by
  cases h with
  | unopened e => rfl
  | refused he => exact absurd rfl (hended _)
  | broken hf => exact hf

end Reply

def nameOf (n : Network) (address : Value) : Except Fault (List Char) :=
  if n.strict && !isPath address then .error .wrongType else address.plain.outcome

theorem noted_yields (n : Network) (address : Value) :
    Yields (n.noted address) (n.nameOf address) := by
  unfold noted nameOf
  split
  · exact yields_pure _
  · exact address.plain_steady.observe

def reply (n : Network) (address : Value) (kind : SocketKind) : Reply :=
  match n.unopenable.lookup kind with
  | some e => .unopened e
  | none =>
    match n.nameOf address with
    | .error f => .ofFault f
    | .ok _ =>
      match n.answerTo kind address with
      | .ok () => .connected
      | .error f => .ofFault f

/-- The kinds of socket that are tried one after the other: up to the first that is not refused. -/
def attempts (reply : SocketKind → Reply) : List SocketKind → List SocketKind
  | [] => []
  | k :: ks =>
    match reply k with
    | .refused _ => k :: attempts reply ks
    | _ => [k]

def leftBy (reply : SocketKind → Reply) (ks : List SocketKind) : List Socket :=
  (attempts reply ks).flatMap fun k => (reply k).leaves k

def lastReply (reply : SocketKind → Reply) (ks : List SocketKind) : Option Reply :=
  (attempts reply ks).getLast?.map reply

def grown (n : Network) (sockets : List Socket) (events : List NetworkEvent) : Network :=
  { n with sockets := n.sockets ++ sockets, events }

section

variable {reply : SocketKind → Reply} {k : SocketKind} {ks : List SocketKind}

theorem attempts_refused {e : SystemError} (h : reply k = .refused e) (ks : List SocketKind) :
    attempts reply (k :: ks) = k :: attempts reply ks := by
  rw [attempts, h]

theorem attempts_ended (h : ∀ e, reply k ≠ .refused e) (ks : List SocketKind) :
    attempts reply (k :: ks) = [k] := by
  rw [attempts]
  split
  · rename_i e he
    exact absurd he (h e)
  · rfl

theorem attempts_single (reply : SocketKind → Reply) (k : SocketKind) :
    attempts reply [k] = [k] := by
  rw [attempts]
  split <;> rfl

theorem attempts_ne_nil (reply : SocketKind → Reply) (k : SocketKind) (ks : List SocketKind) :
    attempts reply (k :: ks) ≠ [] := by
  rw [attempts]
  split <;> exact List.cons_ne_nil _ _

theorem leftBy_of_attempts (h : attempts reply ks = [k]) :
    leftBy reply ks = (reply k).leaves k ∧ lastReply reply ks = some (reply k) := by
  constructor
  · simp [leftBy, h]
  · simp [lastReply, h]

theorem leftBy_refused {e : SystemError} (h : reply k = .refused e) (ks : List SocketKind) :
    leftBy reply (k :: ks) = ⟨k, false⟩ :: leftBy reply ks ∧
      lastReply reply (k :: ks) = (lastReply reply ks).or (some (.refused e)) := by
  have hattempts := attempts_refused h ks
  constructor
  · rw [leftBy, hattempts, List.flatMap_cons, h]
    rfl
  · rw [lastReply, hattempts, List.getLast?_cons, lastReply, ← h]
    cases (attempts reply ks).getLast? <;> rfl

theorem leftBy_ended (h : ∀ e, reply k ≠ .refused e) (ks : List SocketKind) :
    leftBy reply (k :: ks) = (reply k).leaves k ∧ lastReply reply (k :: ks) = some (reply k) :=
  leftBy_of_attempts (attempts_ended h ks)

/-- Sockets are opened in the order of the kinds. -/
theorem leftBy_order (reply : SocketKind → Reply) (ks : List SocketKind) :
    (leftBy reply ks).map Socket.kind <+: ks := by
  induction ks with
  | nil => exact List.prefix_rfl
  | cons k ks ih =>
    by_cases hrefused : ∃ e, reply k = .refused e
    · obtain ⟨e, he⟩ := hrefused
      rw [(leftBy_refused he ks).1]
      exact List.cons_prefix_cons.mpr ⟨rfl, ih⟩
    · rw [(leftBy_ended (not_exists.mp hrefused) ks).1]
      cases reply k with
      | unopened e => exact List.nil_prefix
      | _ => exact List.cons_prefix_cons.mpr ⟨rfl, List.nil_prefix⟩

/-- No socket is open but the last, and that one only if it was connected or something else went
wrong with it. -/
theorem leftBy_cases (reply : SocketKind → Reply) (ks : List SocketKind) :
    ∃ closed : List Socket, (∀ s ∈ closed, s.isOpen = false) ∧
      ((leftBy reply ks = closed ∧ ∀ r, lastReply reply ks = some r → ¬r.Holds) ∨
        ∃ k r, leftBy reply ks = closed ++ [⟨k, true⟩] ∧ lastReply reply ks = some r ∧
          r.Holds) := by
  induction ks with
  | nil =>
    refine ⟨[], by simp, .inl ⟨rfl, ?_⟩⟩
    rintro r ⟨⟩
  | cons k ks ih =>
    by_cases hrefused : ∃ e, reply k = .refused e
    · obtain ⟨e, he⟩ := hrefused
      obtain ⟨hleft, hlast⟩ := leftBy_refused he ks
      rw [hleft, hlast]
      obtain ⟨closed, hclosed, hrest⟩ := ih
      refine ⟨⟨k, false⟩ :: closed, List.forall_mem_cons.mpr ⟨rfl, hclosed⟩, ?_⟩
      obtain ⟨hsame, hnot⟩ | ⟨k', r, hsame, hr, hholds⟩ := hrest
      · refine .inl ⟨by rw [hsame], ?_⟩
        cases hks : lastReply reply ks with
        | none =>
          rintro r ⟨⟩ ⟨⟩
        | some r =>
          rintro r' ⟨⟩
          exact hnot r hks
      · exact .inr ⟨k', r, by rw [hsame]; rfl, by rw [hr]; rfl, hholds⟩
    · obtain ⟨hleft, hlast⟩ := leftBy_ended (not_exists.mp hrefused) ks
      rw [hleft, hlast]
      refine ⟨[], by simp, ?_⟩
      cases hk : reply k with
      | unopened e =>
        refine .inl ⟨rfl, ?_⟩
        rintro r ⟨⟩ ⟨⟩
      | refused e => exact absurd ⟨e, hk⟩ hrefused
      | connected => exact .inr ⟨k, _, rfl, rfl, .connected⟩
      | broken f => exact .inr ⟨k, _, rfl, rfl, .broken f⟩

end

theorem grown_grown (n : Network) (sockets sockets' : List Socket)
    (events events' : List NetworkEvent) :
    (n.grown sockets events).grown sockets' events' = n.grown (sockets ++ sockets') events' := by
  unfold grown
  rw [List.append_assoc]

theorem grown_nil (n : Network) : n.grown [] n.events = n := by
  unfold grown
  rw [List.append_nil]

theorem grown_reply (n : Network) (sockets : List Socket) (events : List NetworkEvent) :
    (n.grown sockets events).reply = n.reply := rfl

/-- A socket that fails to connect is closed if it was the system that refused. -/
theorem failed_grown (n : Network) (kind : SocketKind) (events : List NetworkEvent) (f : Fault) :
    ∃ events', (if f.systemError?.isSome then (n.grown [⟨kind, true⟩] events).close n.sockets.length
      else n.grown [⟨kind, true⟩] events) = n.grown ((Reply.ofFault f).leaves kind) events' := by
  unfold Reply.ofFault
  cases f.systemError? with
  | none => exact ⟨events, rfl⟩
  | some e =>
    refine ⟨events ++ [.close], ?_⟩
    dsimp only [Option.isSome]
    rw [if_pos rfl, close, grown, modify_last]
    rfl

/-- An attempt opens one socket at most, and leaves it as the system takes it. -/
theorem attempt_yields (n : Network) (kind : SocketKind) (address : Value) :
    ∃ events result,
      Yields (n.attempt kind address)
        (n.grown ((n.reply address kind).leaves kind) events, result) ∧
      (n.reply address kind).Ends n.sockets.length result := by
  unfold attempt reply
  cases n.unopenable.lookup kind with
  | some e =>
    refine ⟨n.events, .error (.noSocket e), ?_, .unopened e⟩
    dsimp only [Reply.leaves]
    rw [grown_nil]
    exact yields_pure _
  | none =>
    dsimp only
    have hobserve : Yields ((n.added ⟨kind, true⟩).noted address) (n.nameOf address) :=
      (n.added ⟨kind, true⟩).noted_yields address
    cases htext : n.nameOf address with
    | error f =>
      rw [htext] at hobserve
      obtain ⟨events, hevents⟩ := failed_grown n kind n.events f
      refine ⟨events, .error f, hobserve.bind ?_, Reply.ofFault_ends _ f⟩
      dsimp only
      rw [← hevents]
      exact yields_pure _
    | ok text =>
      rw [htext] at hobserve
      dsimp only
      cases hanswer : n.answerTo kind address with
      | ok u =>
        refine ⟨n.events ++ [.connect kind (String.ofList text)], .ok n.sockets.length,
          hobserve.bind ?_, .connected⟩
        have hsame : (n.added ⟨kind, true⟩).answerTo kind address = .ok () := hanswer
        dsimp only
        rw [hsame]
        exact yields_pure _
      | error f =>
        obtain ⟨events, hevents⟩ :=
          failed_grown n kind (n.events ++ [.connect kind (String.ofList text)]) f
        refine ⟨events, .error f, hobserve.bind ?_, Reply.ofFault_ends _ f⟩
        have hsame : (n.added ⟨kind, true⟩).answerTo kind address = .error f := hanswer
        dsimp only
        rw [hsame]
        dsimp only
        rw [← hevents]
        exact yields_pure _

def connectAny (n : Network) (address : Value) (k : SocketKind) :
    List SocketKind → Render (Network × Except Fault Nat)
  | [] => n.attempt k address
  | k' :: ks => do
    let (n, result) ← n.attempt k address
    match result with
    | .ok id => pure (n, .ok id)
    | .error f =>
      if f.systemError?.isSome then n.connectAny address k' ks else pure (n, .error f)

theorem connect_eq (n : Network) (address : Value) :
    n.connect address = n.connectAny address .datagram [.stream] := rfl

theorem connectAny_yields (address : Value) (ks : List SocketKind) (n : Network) (k : SocketKind) :
    ∃ events result reply,
      Yields (n.connectAny address k ks)
        (n.grown (leftBy (n.reply address) (k :: ks)) events, result) ∧
      lastReply (n.reply address) (k :: ks) = some reply ∧
      reply.Ends ((n.sockets ++ leftBy (n.reply address) (k :: ks)).length - 1) result := by
  -- The kinds that are left start from a network with the refused socket, which answers alike.
  induction ks generalizing n k with
  | nil =>
    obtain ⟨events, result, hyields, hends⟩ := n.attempt_yields k address
    obtain ⟨hleft, hlast⟩ := leftBy_of_attempts (attempts_single (n.reply address) k)
    rw [hleft]
    exact ⟨events, result, _, hyields, hlast, hends.last k⟩
  | cons k' ks ih =>
    obtain ⟨events, result, hyields, hends⟩ := n.attempt_yields k address
    by_cases hrefused : ∃ e, n.reply address k = .refused e
    · obtain ⟨e, he⟩ := hrefused
      obtain ⟨hleft, hlast⟩ := leftBy_refused he (k' :: ks)
      rw [he] at hyields hends
      cases hends with
      | refused hf =>
        rename_i f
        obtain ⟨events', result', reply, hyields', hlast', hends'⟩ :=
          ih (n.grown [⟨k, false⟩] events) k'
        rw [grown_grown] at hyields'
        rw [grown_reply] at hyields' hlast' hends'
        rw [hlast'] at hlast
        refine ⟨events', result', reply, hyields.bind ?_, hlast, ?_⟩
        · dsimp only
          rw [hf, hleft]
          exact hyields'
        · rw [hleft]
          have hsockets : (n.grown [⟨k, false⟩] events).sockets = n.sockets ++ [⟨k, false⟩] := rfl
          rw [hsockets, List.append_assoc] at hends'
          exact hends'
    · have hended : ∀ e, n.reply address k ≠ .refused e := not_exists.mp hrefused
      obtain ⟨hleft, hlast⟩ := leftBy_ended hended (k' :: ks)
      rw [hleft]
      refine ⟨events, result, _, hyields.bind ?_, hlast, hends.last k⟩
      cases result with
      | ok id => exact yields_pure _
      | error f =>
        dsimp only
        rw [hends.given_up hended]
        exact yields_pure _

/-- The kinds of socket that there are for the system log, in the order in which they are tried. -/
def kinds (n : Network) : List SocketKind := if n.supported then [.datagram, .stream] else []

def opened (n : Network) (address : Value) : List Socket := leftBy (n.reply address) n.kinds

def last (n : Network) (address : Value) : Option Reply := lastReply (n.reply address) n.kinds

theorem last_eq_none_iff {n : Network} {address : Value} :
    n.last address = none ↔ n.supported = false := by
  rw [last, lastReply, Option.map_eq_none_iff, List.getLast?_eq_none_iff, kinds]
  cases n.supported with
  | false => exact iff_of_true rfl rfl
  | true => exact iff_of_false (attempts_ne_nil _ _ _) (by simp)

def Left (n n' : Network) (id : Nat) : Prop := n.sockets.length ≤ id ∧ n'.isOpen id = true

section

variable {n n' : Network} {closed : List Socket} {id : Nat}

theorem left_iff {sockets : List Socket} (h : n'.sockets = n.sockets ++ sockets) :
    n.Left n' id ↔
      n.sockets.length ≤ id ∧ ∃ s, sockets[id - n.sockets.length]? = some s ∧ s.isOpen = true := by
  unfold Left isOpen
  refine and_congr_right fun hle => ?_
  rw [h, List.getElem?_append_right hle]
  cases sockets[id - n.sockets.length]? <;> simp

theorem not_left_of_closed (h : n'.sockets = n.sockets ++ closed)
    (hclosed : ∀ s ∈ closed, s.isOpen = false) (id : Nat) : ¬n.Left n' id := by
  rw [left_iff h]
  rintro ⟨-, s, hs, hopen⟩
  rw [hclosed s (List.mem_of_getElem? hs)] at hopen
  cases hopen

theorem left_iff_last {k : SocketKind} (h : n'.sockets = n.sockets ++ (closed ++ [⟨k, true⟩]))
    (hclosed : ∀ s ∈ closed, s.isOpen = false) (id : Nat) :
    n.Left n' id ↔ id = n.sockets.length + closed.length := by
  rw [left_iff h]
  constructor
  · rintro ⟨hle, s, hs, hopen⟩
    obtain ⟨hlt, -⟩ := List.getElem?_eq_some_iff.mp hs
    rw [List.length_append, List.length_singleton] at hlt
    by_cases hbefore : id - n.sockets.length < closed.length
    · rw [List.getElem?_append_left hbefore] at hs
      rw [hclosed s (List.mem_of_getElem? hs)] at hopen
      cases hopen
    · omega
  · rintro rfl
    refine ⟨Nat.le_add_right _ _, ⟨k, true⟩, ?_, rfl⟩
    rw [Nat.add_sub_cancel_left]
    exact List.getElem?_concat_length

end

end Network

namespace SyslogWriter

open Network

def called (address : Value) : Except Fault (Option String) :=
  match address with
  | .none => .ok none
  | address => address.plain.outcome.map fun text => some (String.ofList text)

def unreached (address : Value) (cause : Option SystemError) : Fault :=
  match called address with
  | .ok who => .cannotConnect who cause
  | .error f => f

/-- What comes of a connection, from the reply to the last attempt. -/
inductive Reaches (address : Value) (id : Nat) :
    Option Reply → Except Fault SyslogWriter → Prop where
  | untried : Reaches address id none (.error (unreached address none))
  | refused (e : SystemError) :
      Reaches address id (some (.refused e)) (.error (unreached address (some e)))
  | unopened (e : SystemError) : Reaches address id (some (.unopened e)) (.error (.noSocket e))
  | broken (f : Fault) : Reaches address id (some (.broken f)) (.error f)
  | connected {s : SyslogWriter} (h : s.socket = id) :
      Reaches address id (some .connected) (.ok s)

theorem unreachable_yields (address : Value) (cause : Option SystemError) :
    Yields (tryCatch (unreachable address cause) pure) (unreached address cause) := by
  by_cases h : address = .none
  · subst h
    exact yields_pure _
  · let told (text : List Char) : Fault := .cannotConnect (some (String.ofList text)) cause
    have hcalled : called address =
        address.plain.outcome.map fun text => some (String.ofList text) := by
      unfold called
      split
      · exact absurd rfl h
      · rfl
    have hunreachable : unreachable address cause = address.plain >>= fun text =>
        pure (told text) := by
      unfold unreachable
      split
      · exact absurd rfl h
      · rfl
    have hsteady : Steady Fault.OfLook (address.plain >>= fun text => pure (told text)) :=
      address.plain_steady.bind fun text => Render.steady_pure _ _
    rw [hunreachable, unreached, hcalled]
    refine hsteady.caught ?_
    rw [Render.outcome_map]
    cases address.plain.outcome with
    | ok text => exact .inl rfl
    | error f => exact .inr rfl

theorem connect_reaches (n : Network) (program : List String) (process : Nat)
    (address ident : Value) :
    ∃ events result,
      Yields (connect n program process address ident) (n.grown (n.opened address) events, result) ∧
      Reaches address ((n.sockets ++ n.opened address).length - 1) (n.last address) result := by
  have hfail : ∀ (u : Network) (cause : Option SystemError),
      Yields (do
          let f ← tryCatch (unreachable address cause) pure
          pure ((u, .error f) : Network × Except Fault SyslogWriter))
        (u, .error (unreached address cause)) :=
    fun u cause => (unreachable_yields address cause).bind (yields_pure _)
  unfold connect
  dsimp only
  cases hsupported : n.supported with
  | false =>
    have hkinds : n.kinds = [] := by
      rw [kinds, hsupported]
      rfl
    have hopened : n.grown (n.opened address) n.events = n := by
      rw [opened, hkinds]
      exact grown_nil n
    rw [last, hkinds]
    refine ⟨n.events, .error (unreached address none), ?_, .untried⟩
    rw [hopened]
    exact hfail n none
  | true =>
    have hkinds : n.kinds = [.datagram, .stream] := by
      rw [kinds, hsupported]
      rfl
    obtain ⟨events, result, reply, hyields, hlast, hends⟩ :=
      connectAny_yields address [.stream] n .datagram
    rw [← connect_eq] at hyields
    rw [last, opened, hkinds, hlast]
    cases hends with
    | unopened e => exact ⟨events, _, hyields.bind (yields_pure _), .unopened e⟩
    | connected => exact ⟨events, _, hyields.bind (yields_pure _), .connected rfl⟩
    | refused he =>
      refine ⟨events, _, hyields.bind ?_, .refused _⟩
      dsimp only
      rw [he]
      exact hfail _ _
    | broken hf =>
      refine ⟨events, _, hyields.bind ?_, .broken _⟩
      dsimp only
      rw [hf]
      exact yields_pure _

theorem unreached_iff {address : Value} {reason cause : Option SystemError}
    {who : Option String} :
    unreached address reason = .cannotConnect who cause ↔
      reason = cause ∧ called address = .ok who := by
  unfold unreached
  cases hcalled : called address with
  | ok who' =>
    dsimp only
    constructor
    · rintro ⟨⟩
      exact ⟨rfl, rfl⟩
    · rintro ⟨rfl, ⟨⟩⟩
      rfl
  | error f =>
    have hlook : f.OfLook := by
      unfold called at hcalled
      split at hcalled
      · cases hcalled
      · cases hplain : address.plain.outcome with
        | ok text =>
          rw [hplain] at hcalled
          cases hcalled
        | error g =>
          rw [hplain] at hcalled
          cases hcalled
          exact address.plain_steady.fails f hplain
    refine iff_of_false ?_ ?_
    · rintro rfl
      cases hlook
    · rintro ⟨-, ⟨⟩⟩

end SyslogWriter

/-- What goes wrong with a socket, other than that the system refuses, is no lack of a
connection. -/
theorem Network.reply_broken {n : Network} {address : Value} {kind : SocketKind} {f : Fault}
    (h : n.reply address kind = .broken f) (who : Option String) (cause : Option SystemError) :
    f ≠ .cannotConnect who cause := by
  have hfault : ∀ {g : Fault}, Reply.ofFault g = .broken f → g = f := by
    intro g hg
    unfold Reply.ofFault at hg
    split at hg
    · cases hg
    · exact Reply.broken.inj hg
  rintro rfl
  unfold reply at h
  split at h
  · cases h
  · split at h
    · rename_i g hname
      rw [hfault h, nameOf] at hname
      split at hname
      · cases hname
      · cases address.plain_steady.fails _ hname
    · split at h
      · cases h
      · rename_i g hanswer
        rw [hfault h, answerTo] at hanswer
        split at hanswer
        · split at hanswer
          · rename_i o _
            cases o <;> cases hanswer
          · cases hanswer
        · cases hanswer

end LeveledLog
