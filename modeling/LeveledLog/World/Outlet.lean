import LeveledLog.Fault

/-!
Outlets: destinations that follow a script. A script says which writes and flushes fail, whether
writes wait for a permit, and whether a write calls the logger that writes. An outlet keeps what
was done with it.
-/

namespace LeveledLog

inductive FlushForm where
  | present
  /-- There is none, or nothing in its place. -/
  | missing
  /-- There is something that cannot be called. -/
  | notCallable
  deriving DecidableEq, Repr

inductive OutletEvent where
  | bytes (bs : List UInt8)
  | text (s : List CodePoint)
  | writeFailed (kind : FaultKind)
  | flushed
  | flushFailed (kind : FaultKind)
  | reentered (synced : Bool)
  deriving DecidableEq, Repr

structure Outlet where
  name : String
  writable : Bool
  mode : Mode
  /-- How the next writes end; without an entry they succeed. -/
  writes : List (Option FaultKind)
  flush : FlushForm
  flushes : List (Option FaultKind)
  reentrant : Bool
  gated : Bool
  permits : Nat
  ended : Nat
  /-- The number of the logger last made for the outlet. -/
  latest : Option Nat
  events : List OutletEvent
  deriving DecidableEq, Repr

namespace Outlet

def plain (name : String) (mode : Mode) : Outlet :=
  { name, writable := true, mode, writes := [], flush := .present, flushes := []
    reentrant := false, gated := false, permits := 0, ended := 0, latest := none, events := [] }

def shown (o : Outlet) : String := "<out " ++ o.name ++ ">"

def passes (o : Outlet) : Bool := !o.gated || o.permits != 0

def record (o : Outlet) (e : OutletEvent) : Outlet := { o with events := o.events ++ [e] }

def written (o : Outlet) (line : List CodePoint) : OutletEvent :=
  match o.mode with
  | .text => .text line
  | .bytes => .bytes (Text.encode line)

def write (o : Outlet) (line : List CodePoint) : Outlet × Option Fault :=
  let rest :=
    { o with permits := o.permits - 1, ended := o.ended + 1, writes := o.writes.tail }
  match o.writes.head? with
  | some (some k) => (rest.record (.writeFailed k), some (.scripted k))
  | _ => (rest.record (o.written line), none)

def flushOnce (o : Outlet) : Outlet × Option Fault :=
  match o.flush with
  | .missing => (o, none)
  | .notCallable => (o, some .wrongType)
  | .present =>
    let rest := { o with flushes := o.flushes.tail }
    match o.flushes.head? with
    | some (some k) => (rest.record (.flushFailed k), some (.scripted k))
    | _ => (rest.record .flushed, none)

end Outlet

end LeveledLog
