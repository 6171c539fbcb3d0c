import LeveledLog.World

/-!
One schedule of a program: whoever called first goes on first, callers before workers, until nobody
can go on. A write to a reentrant outlet and the handling of a notice make calls of their own from
the worker's thread; the worker goes on when they have ended.
-/

namespace LeveledLog.World

inductive Turn where
  | caller (m : Nat) (t : Thread)
  | worker (m : Nat)
  deriving DecidableEq, Repr

def callerReady (w : World) (m : Nat) (t : Thread) : Bool :=
  match w.members[m]? with
  | some x => decide (Logger.Enabled x.state (.caller t))
  | none => false

def workerReady (w : World) (m : Nat) : Bool :=
  match w.members[m]? with
  | none => false
  | some x =>
    decide (Logger.Enabled x.state (.worker none)) &&
      match x.state.worker with
      | .writing _ => w.writePasses x
      | _ => true

def nextTurn (w : World) (busy : List Nat) : Option Turn :=
  match w.active.find? fun a => w.callerReady a.1 a.2 with
  | some (m, t) => some (.caller m t)
  | none =>
    ((List.range w.members.length).find? fun m => !busy.contains m && w.workerReady m).map .worker

def bare (w : World) (call : Call) : Invocation := ⟨call, [], [], w.host⟩

def outcomeOf? (w : World) (m : Nat) (t : Thread) : Option Outcome :=
  match w.members[m]? with
  | some x =>
    match x.state.callers t with
    | .done outcome _ => some outcome
    | _ => none
  | none => none

def ownCall (w : World) (m : Nat) (i : Invocation) : World × Option Outcome :=
  match w.members[m]? with
  | none => (w, none)
  | some x =>
    let (_, outcome, looks) := Logger.ownCall x.state w.clock i
    ({ w.event m (.ownCall i) with looks := w.looks + looks }, some outcome)

def looksOf (w : World) (m : Nat) (t : Thread) : Nat :=
  match w.members[m]? with
  | none => 0
  | some x =>
    match x.state.callers t with
    | .handing _ _ looks => looks
    | .sending _ _ _ looks => looks
    | .awaiting _ _ _ looks => looks
    | .flushing _ _ looks => looks
    | .done _ looks => looks
    | _ => 0

def callerTurn (w : World) (m : Nat) (t : Thread) : World :=
  let after := w.event m (.caller t)
  { after with looks := after.looks + (after.looksOf m t - w.looksOf m t) }

def collect (w : World) (m : Nat) (t : Thread) : World × Option Outcome :=
  match w.outcomeOf? m t with
  | none => (w, none)
  | some outcome =>
    let w := w.event m (.collect t)
    ({ w with active := w.active.filter (· != (m, t)) }, some outcome)

def begin (w : World) (m : Nat) (t : Thread) (i : Invocation) : World :=
  let w := w.event m (.start t i)
  { w with active := w.active ++ [(m, t)] }

def isSynced : Option Outcome → Bool
  | some (.returned (.bool b)) => b
  | _ => false

def reentrantCalls : List Call :=
  [.output (.int 0) (.priority .emergency) (.text "reentrant"), .backtrace (.int 1), .sync]

def forwardCalls (message : String) : List Call :=
  [.leveled .warning (.text "diag: %s") [.text message], .sync]

def reportMessage (w : World) (x : Member) : Diagnostic → World × String
  | .started =>
    let (w, shown) := w.showDestination x.destination
    (w, workerName x.state.number ++ " started for " ++ String.ofList shown)
  | .failed _ _ =>
    let (w, shown) := w.showDestination x.destination
    (w, workerName x.state.number ++ ": write to " ++ String.ofList shown ++ " failed")

def reportLevel : Diagnostic → NoticeLevel
  | .started => .debug
  | .failed _ _ => .warning

def reportCause : Diagnostic → Option Fault
  | .started => none
  | .failed _ f => some f

def reentered? (w : World) (x : Member) : Option (Outlet × Nat) :=
  match x.destination with
  | .outlet name =>
    match w.outlet? name with
    | some o => if o.reentrant then o.latest.map fun m => (o, m) else none
    | none => none
  | _ => none

mutual

/-- Lets everybody go on until nobody can, at most `fuel` turns deep. -/
def settle : Nat → List Nat → World → World
  | 0, _, w => w
  | fuel + 1, busy, w =>
    match w.nextTurn busy with
    | none => w
    | some (.caller m t) => settle fuel busy (w.callerTurn m t)
    | some (.worker m) => settle fuel busy (workerTurn fuel busy w m)

def workerTurn : Nat → List Nat → World → Nat → World
  | 0, _, w, _ => w
  | fuel + 1, busy, w, m =>
    match w.members[m]? with
    | none => w
    | some x =>
      match x.state.worker with
      | .receiving => w.event m (.worker none)
      | .ended _ => w
      | .writing line =>
        let w :=
          match w.reentered? x with
          | none => w
          | some (o, other) =>
            let (w, result) := callAll fuel (m :: busy) w x.state.own other reentrantCalls none
            match w.outlet? o.name with
            | some o => w.setOutlet (o.record (.reentered (isSynced result)))
            | none => w
        let (w, result) := w.write m line
        w.event m (.worker result)
      | .flushing _ =>
        let (w, result) := w.flush m
        w.event m (.worker result)
      | .reporting d =>
        let w :=
          if w.noticeLevel.rank ≤ (reportLevel d).rank then
            let (w, message) := w.reportMessage x d
            announce fuel (m :: busy) w x.state.own
              (.report "lvlog.worker" (reportLevel d) message (reportCause d)) message
          else w
        w.event m (.worker none)

def announce : Nat → List Nat → World → Thread → Notice → String → World
  | 0, _, w, _, _, _ => w
  | fuel + 1, busy, w, t, n, message =>
    let w := w.note n
    match w.target with
    | none => w
    | some m =>
      let (w, result) := callAll fuel busy w t m (forwardCalls message) none
      w.note (.forwarded (isSynced result))

def callAll : Nat → List Nat → World → Thread → Nat → List Call → Option Outcome →
    World × Option Outcome
  | 0, _, w, _, _, _, result => (w, result)
  | _, _, w, _, _, [], result => (w, result)
  | fuel + 1, busy, w, t, m, c :: rest, _ =>
    match w.members[m]? with
    | none => (w, none)
    | some x =>
      if t = x.state.own then
        let (w, result) := w.ownCall m (w.bare c)
        callAll fuel busy w t m rest result
      else
        let w := settle fuel busy (w.begin m t (w.bare c))
        let (w, result) := w.collect m t
        callAll fuel busy w t m rest result

end

def patience : Nat := 20000

def settled (w : World) : World := settle patience [] w

end LeveledLog.World
