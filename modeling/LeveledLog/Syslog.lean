import LeveledLog.Fault
import LeveledLog.Line
import LeveledLog.Text.Utf8
import LeveledLog.Value.Equality
import LeveledLog.Value.Text

/-!
The system log. It is reached through a local socket, of which there are two kinds, and takes one
record for each line: a fixed priority, a timestamp, the name of the sender, and the line itself.
-/

namespace LeveledLog

inductive SocketKind where
  | datagram
  | stream
  deriving DecidableEq, Repr

inductive Obstacle where
  | system (e : SystemError)
  | other (kind : FaultKind)
  deriving DecidableEq, Repr

def Obstacle.fault : Obstacle → Fault
  | system e => .system e
  | other kind => .scripted kind

inductive Listener where
  | datagram
  | stream
  | refused
  | absent
  /-- Is against a connection of each kind, or takes it. -/
  | answering (datagram stream : Option Obstacle)
  deriving DecidableEq, Repr

structure Socket where
  kind : SocketKind
  isOpen : Bool
  deriving DecidableEq, Repr

inductive NetworkEvent where
  | connect (kind : SocketKind) (address : String)
  | close
  | send (record : List UInt8)
  | sendAll (record : List UInt8)
  deriving DecidableEq, Repr

/-- Local sockets: what is at their addresses, how many sends will still fail, the sockets opened
so far, and what has happened. -/
structure Network where
  /-- Whether there are local sockets at all. -/
  supported : Bool
  listeners : List (String × Listener)
  failures : Nat
  sockets : List Socket
  events : List NetworkEvent
  /-- The kinds of which no socket can be made. -/
  unopenable : List (SocketKind × SystemError) := []
  /-- Whether an address has to be a path. If not, one that is none only leads nowhere. -/
  strict : Bool := false
  deriving DecidableEq, Repr

namespace Network

def record (n : Network) (e : NetworkEvent) : Network := { n with events := n.events ++ [e] }

def added (n : Network) (s : Socket) : Network := { n with sockets := n.sockets ++ [s] }

def isPath : Value → Bool
  | .bytes _ => true
  | v => v.text?.isSome

def listener (n : Network) (address : Value) : Listener :=
  match address with
  | .bytes bs =>
    match n.listeners.find? fun l => n.strict && Text.utf8 l.1.toList == bs with
    | some (_, l) => l
    | none => .absent
  | v => (v.text?.bind fun a => n.listeners.lookup a).getD .absent

def obstacle : Listener → SocketKind → Option Obstacle
  | .datagram, .datagram => none
  | .stream, .stream => none
  | .refused, _ => some (.system .refused)
  | .absent, _ => some (.system .noEntry)
  | .answering answer _, .datagram => answer
  | .answering _ answer, .stream => answer
  | _, _ => some (.system .wrongProtocol)

def close (n : Network) (id : Nat) : Network :=
  { n with sockets := n.sockets.modify id fun s => { s with isOpen := false } }.record .close

def answerTo (n : Network) (kind : SocketKind) (address : Value) : Except Fault Unit :=
  if address.hashable then
    match obstacle (n.listener address) kind with
    | some o => .error o.fault
    | none => .ok ()
  else .error .wrongType

/-- How an address is written down, unless it is no path and has to be one. -/
def noted (n : Network) (address : Value) : Render (Except Fault (List Char)) :=
  if n.strict && !isPath address then pure (.error .wrongType) else address.plain.observe

def attempt (n : Network) (kind : SocketKind) (address : Value) :
    Render (Network × Except Fault Nat) :=
  match n.unopenable.lookup kind with
  | some e => pure (n, .error (.noSocket e))
  | none => do
    let id := n.sockets.length
    let n := n.added ⟨kind, true⟩
    let text ← n.noted address
    let (n, result) :=
      match text with
      | .ok text =>
        (n.record (.connect kind (String.ofList text)), n.answerTo kind address)
      | .error f => (n, .error f)
    match result with
    | .ok () => pure (n, .ok id)
    | .error f => pure (if f.systemError?.isSome then n.close id else n, .error f)

def connect (n : Network) (address : Value) : Render (Network × Except Fault Nat) := do
  let (n, result) ← n.attempt .datagram address
  match result with
  | .ok id => pure (n, .ok id)
  | .error f => if f.systemError?.isSome then n.attempt .stream address else pure (n, .error f)

def isOpen (n : Network) (id : Nat) : Bool := ((n.sockets[id]?).map (·.isOpen)).getD false

def kind (n : Network) (id : Nat) : SocketKind := ((n.sockets[id]?).map (·.kind)).getD .datagram

def terminated (record : List UInt8) : List UInt8 :=
  if record.getLast? = some 0x0a then record else record ++ [0x0a]

def send (n : Network) (id : Nat) (record : List UInt8) : Network × Option SystemError :=
  if !n.isOpen id then (n, some .badDescriptor)
  else
    match n.failures with
    | failures + 1 => ({ n with failures }, some .noBuffer)
    | 0 =>
      match n.kind id with
      | .datagram => (n.record (.send record), none)
      | .stream => (n.record (.sendAll (terminated record)), none)

end Network

structure SyslogWriter where
  address : Value
  ident : Value
  process : Nat
  socket : Nat
  deriving Repr

namespace SyslogWriter

/-- The priority of every record: an error of a user's program. -/
def recordPriority : Nat := 1 * 8 + 3

def unknownProgram : String := "python"

def defaultIdent (program : List String) : Value :=
  match program with
  | [] => .text unknownProgram
  | path :: _ =>
    if path.isEmpty then .text unknownProgram
    else .text (String.ofList (Line.baseName path.toList))

/-- A number below one hundred in two places, with a blank in place of a leading zero. -/
def blankPadded (n : Nat) : List Char :=
  let s := Text.natural 10 n
  List.replicate (2 - s.length) ' ' ++ s

def stamp (t : Stamp) : List Char :=
  t.monthName.toList ++ ' ' :: blankPadded t.day ++ ' ' ::
    Line.part 2 t.hour ++ ':' :: Line.part 2 t.minute ++ ':' :: Line.part 2 t.second

def header (now : Stamp) (ident : List Char) (process : Nat) : List Char :=
  '<' :: Text.natural 10 recordPriority ++ '>' :: stamp now ++ ' ' :: ident ++ '[' ::
    Text.natural 10 process ++ [']', ':', ' ']

def unreachable (address : Value) (cause : Option SystemError) : Render Fault :=
  match address with
  | .none => pure (.cannotConnect none cause)
  | address => do
    let text ← address.plain
    pure (.cannotConnect (some (String.ofList text)) cause)

def connect (n : Network) (program : List String) (process : Nat) (address ident : Value) :
    Render (Network × Except Fault SyslogWriter) := do
  let ident :=
    match ident with
    | .none => defaultIdent program
    | ident => ident
  let fail (n : Network) (cause : Option SystemError) :
      Render (Network × Except Fault SyslogWriter) := do
    let f ← tryCatch (unreachable address cause) pure
    pure (n, .error f)
  if !n.supported then fail n none
  else
    let (n, result) ← n.connect address
    match result with
    | .ok socket => pure (n, .ok ⟨address, ident, process, socket⟩)
    | .error f =>
      match f.systemError? with
      | some cause => fail n (some cause)
      | none => pure (n, .error f)

def write (w : SyslogWriter) (n : Network) (now : Stamp) (line : List UInt8) :
    Render (Network × Except Fault Nat) := do
  let ident ← w.ident.plain
  let (n, error) := n.send w.socket (Text.utf8 (header now ident w.process) ++ line)
  match error with
  | none => pure (n, .ok line.length)
  | some e => pure (n, .error (.system e))

def shown (w : SyslogWriter) : Render (List Char) := do
  let address ← w.address.shown
  let ident ← w.ident.shown
  pure ("SyslogWriter(address=".toList ++ address ++ ", ident=".toList ++ ident ++ [')'])

end SyslogWriter

end LeveledLog
