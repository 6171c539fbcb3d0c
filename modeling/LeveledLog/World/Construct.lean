import LeveledLog.Settings
import LeveledLog.World.Schedule

/-!
Making loggers: on an outlet, on a file, on the system log, by the name of a destination, or from
settings. A logger is made only when all of its arguments are valid, and its worker gets the next
number.
-/

namespace LeveledLog

structure Wanted where
  priority : Value
  linePrefix : Value
  flags : Value
  deriving Repr

namespace Wanted

def standard : Wanted := ⟨.priority .none, .text "", .flags Flags.standard⟩

def options (h : Host) (a : Wanted) : Render Options := do
  let p ← Priority.ofValue a.priority
  let f ← Flags.ofValue h.made a.flags
  pure ⟨p, f, a.linePrefix⟩

end Wanted

inductive Source where
  | outlet (o : Outlet)
  | file (path : Value)
  | syslog (address ident : Value)
  | named (name : Value)
  | settings (given : List (String × Value))
  deriving Repr

namespace World

def standardError : String := "stderr"

/-- What a destination is given. Only an outlet may be a stream of text. -/
def modeOf (w : World) : Destination → Mode
  | .outlet name => ((w.outlet? name).map (·.mode)).getD .bytes
  | .file _ => .bytes
  | .syslog _ => .bytes

def add (w : World) (o : Options) (d : Destination) : World × Nat :=
  let m := w.members.length
  ({ w with members := w.members ++ [⟨Logger.initial (m + 1) (w.modeOf d) o, d⟩] }, m)

def addWith (w : World) (options : Render Options) (d : Destination) : World × Except Fault Nat :=
  match w.render options with
  | (w, .error f) => (w, .error f)
  | (w, .ok o) => let (w, m) := w.add o d; (w, .ok m)

def onOutlet (w : World) (name : String) (a : Wanted) : World × Except Fault Nat :=
  match w.outlet? name with
  | none => (w, .error .wrongType)
  | some o =>
    if !o.writable then (w, .error .wrongType)
    else
      match w.addWith (a.options w.host) (.outlet name) with
      | (w, .ok m) => (w.setOutlet { o with latest := some m }, .ok m)
      | failed => failed

def pathBytes (path : Value) : Except Fault (List UInt8) :=
  let checked (encoded : Bool) (bs : List UInt8) : Except Fault (List UInt8) :=
    if bs.contains 0 then .error (.nulInPath encoded) else .ok bs
  match path with
  | .bytes bs => checked true bs
  | v =>
    match v.text? with
    | some s => checked false (Text.utf8 s.toList)
    | none => .error .wrongType

def openFault (path : Value) (e : SystemError) : Render Fault := do
  let plain ← path.plain
  let quoted ← path.shown
  pure (.cannotOpen path (String.ofList plain) (String.ofList quoted) e)

def openFile (w : World) (path : Value) : World × Except Fault Writer :=
  match pathBytes path with
  | .error f => (w, .error f)
  | .ok bs =>
    match w.files.openForWriting bs with
    | .ok (files, writer) => ({ w with files }, .ok writer)
    | .error e =>
      match w.render (openFault path e) with
      | (w, .ok f) => (w, .error f)
      | (w, .error f) => (w, .error f)

def onFile (w : World) (path : Value) (a : Wanted) : World × Except Fault Nat :=
  match w.openFile path with
  | (w, .error f) => (w, .error f)
  | (w, .ok writer) => w.addWith (a.options w.host) (.file writer)

def syslogFlags (h : Host) (v : Value) : Render Flags := do
  let f ← Flags.ofValue h.made v
  let f := f.union (Flags.single .syslog)
  if f.nameable then pure f else throw .numberTooLong

def syslogOptions (h : Host) (a : Wanted) : Render Options := do
  let f ← syslogFlags h a.flags
  let p ← Priority.ofValue a.priority
  pure ⟨p, f, a.linePrefix⟩

def onSyslog (w : World) (address ident : Value) (a : Wanted) : World × Except Fault Nat :=
  match w.render (SyslogWriter.connect w.network w.program w.process address ident) with
  | (w, .error f) => (w, .error f)
  | (w, .ok (network, .error f)) => ({ w with network }, .error f)
  | (w, .ok (network, .ok writer)) =>
    { w with network }.addWith (syslogOptions w.host a) (.syslog writer)

def isSyslog (name : String) : Bool := String.ofList (Text.upper name.toList) == "SYSLOG"

/-- A logger by the name of its destination; one on a file has no prefix. -/
def onNamed (w : World) (name : Value) (a : Wanted) : World × Except Fault Nat :=
  let onPath := w.onFile name { a with linePrefix := .text "" }
  match name with
  | .bytes _ => onPath
  | name =>
    match name.text? with
    | none => (w, .error .missingAttribute)
    | some s =>
      if isSyslog s then w.onSyslog (.text Settings.defaultAddress) .none a else onPath

def wantedOf (s : Settings) : Wanted := ⟨.priority s.priority, .text s.linePrefix, .flags s.flags⟩

def onSettings (w : World) (s : Settings) : World × Except Fault Nat :=
  match s.destination with
  | none => w.onOutlet standardError (wantedOf s)
  | some d =>
    if isSyslog d then
      w.onSyslog (.text s.syslogAddress)
        (match s.syslogIdent with | some i => .text i | none => .none) (wantedOf s)
    else w.onFile (.text d) (wantedOf s)

def shownDestination (s : Settings) : List Char :=
  match s.destination with
  | none => Text.quote ("<stderr>").toList
  | some d => if d.isEmpty then Text.quote ("<stderr>").toList else Text.quote d.toList

def mainThread : Thread := .caller 0

def announceSettings (w : World) (s : Settings) : World :=
  if w.noticeLevel.rank ≤ NoticeLevel.debug.rank then
    let message := "building logger for destination " ++ String.ofList (shownDestination s)
    w.announce patience [] mainThread (.report "lvlog.factory" .debug message none) message
  else w

end World

def World.provide (w : World) (o : Outlet) : World :=
  if (w.outlet? o.name).isSome then w else { w with outlets := w.outlets ++ [o] }

def World.construct (w : World) (source : Source) (a : Wanted) : World × Except Fault Nat :=
  match source with
  | .outlet o => (w.provide o).onOutlet o.name a
  | .file path => w.onFile path a
  | .syslog address ident => w.onSyslog address ident a
  | .named name => w.onNamed name a
  | .settings given =>
    match w.render (Settings.load .standard ⟨given, w.environment⟩) with
    | (w, .error f) => (w, .error f)
    | (w, .ok s) => (w.announceSettings s).onSettings s

end LeveledLog
