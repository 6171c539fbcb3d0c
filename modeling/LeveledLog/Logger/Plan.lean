import LeveledLog.Flags.OfValue
import LeveledLog.Line.OfValue
import LeveledLog.Logger.Call
import LeveledLog.Message
import LeveledLog.Priority.OfValue

/-!
What a call is going to do, once it is not dropped: what it hands to the worker, in order, and how
it ends. A plan depends on the options, the clock and the place of the call at one moment, and
making it hands off nothing; a call whose plan cannot be made ends in a fault.
-/

namespace LeveledLog

structure Options where
  threshold : Priority
  flags : Flags
  linePrefix : Value
  deriving Repr

namespace Options

def loggable (o : Options) (p : Priority) : Bool := decide (o.threshold ≤ p)

/-- Whether a value passes the threshold; it has to be a number. -/
def passes (o : Options) (v : Value) : Render Bool :=
  match v.compareInt? o.threshold.rank with
  | none => throw .wrongType
  | some none => pure false
  | some (some ord) => pure (ord != .lt)

end Options

inductive Task where
  | line (text : List CodePoint)
  | barrier
  deriving DecidableEq, Repr

inductive Ending where
  | value (v : Value)
  | fault (f : Fault)
  | exit (streams : List Stream)
  deriving Repr

structure Plan where
  tasks : List Task
  ending : Ending
  deriving Repr

namespace Plan

def ofTasks (tasks : List Task) : Plan := ⟨tasks, .value .none⟩

/-- The call site that a method of the library finds for a depth. Its search begins in a frame of
its own, below that of the method, and goes one frame further than the depth. -/
def callSite (frames : Stack) (depth : Nat) : CallSite :=
  Stack.siteBeyond (Frame.own "_caller" :: frames) (depth + 1)

def lineOf (o : Options) (now : Stamp) (frames : Stack) (depth : Nat) (p : Priority)
    (message : List CodePoint) : List Task :=
  if message.isEmpty then []
  else
    let site :=
      if 0 < depth && Line.wantsSite o.flags then
        some (callSite (Frame.ofMethod "output" :: frames) depth)
      else none
    [.line (Line.format p.rank o.flags message site now)]

/-- The call site at a depth, if the depth and the options ask for one. -/
def siteOf (f : Flags) (frames : Stack) (depth : Value) : Render (Option CallSite) :=
  match depth.compareInt? 0 with
  | none => throw .wrongType
  | some (some .gt) =>
    if Line.wantsSite f then
      match depth.int? with
      | some n => pure (some (callSite frames n.toNat))
      | none => throw .wrongType
    else pure none
  | some _ => pure none

def output (o : Options) (now : Stamp) (stack : Stack) (depth priority message : Value) :
    Render (List Task) :=
  if !message.truth then pure []
  else do
    let site ← siteOf o.flags (Frame.ofMethod "output" :: stack) depth
    let line ← Line.ofValues priority o.flags message site now
    pure [.line line]

/-- How many frames a depth asks for out of those that there are; zero asks for all. -/
def depthOf (available : Nat) (depth : Value) : Render Nat :=
  match depth.compareInt? 0 with
  | none => throw .wrongType
  | some (some .gt) =>
    match depth.compareInt? available with
    | some (some .lt) =>
      match depth.int? with
      | some n => pure n.toNat
      | none => throw .wrongType
    | _ => pure 0
  | some _ => pure 0

/-- Where a backtrace begins: at the caller of the frame that asks for it. -/
def traced (frames : Stack) : Stack := (Frame.ofMethod "backtrace" :: frames).drop 2

def blockOf (stack : Stack) (depth : Nat) : Task :=
  .line (Text.points (Backtrace.block (Backtrace.frames stack depth)))

def backtrace (frames : Stack) (depth : Value) : Render (List Task) := do
  let depth ← depthOf ((traced frames).take Backtrace.frameLimit).length depth
  pure [blockOf (traced frames) depth]

def spaced : List Value → Render (List Char)
  | [] => pure []
  | [v] => v.plain
  | v :: rest => do
    let s ← v.plain
    let more ← spaced rest
    pure (s ++ ' ' :: more)

def lastWords (o : Options) (now : Stamp) (frames : Stack) (message : List CodePoint)
    (depth : Nat) : List Task :=
  lineOf o now frames 2 .emergency message ++ [blockOf (traced frames) depth, .barrier]

def make (o : Options) (now : Stamp) (i : Invocation) : Render (Options × Plan) :=
  let within (method : String) : Stack := Frame.ofMethod method :: i.stack
  match i.call with
  | .leveled l format args => do
    let m ← message i.host.room format args
    pure (o, ofTasks (lineOf o now (within l.method) l.depth l.priority m))
  | .printf format args => do
    let m ← message i.host.room format args
    pure (o, ofTasks (lineOf o now (within "printf") 0 .info m))
  | .print values => do
    let m ← spaced values
    pure (o, ofTasks (lineOf o now (within "print") 0 .info (Text.points m)))
  | .output depth priority m => do
    let tasks ← output o now i.stack depth priority m
    pure (o, ofTasks tasks)
  | .backtrace depth => do
    let tasks ← backtrace i.stack depth
    pure (o, ofTasks tasks)
  | .sync => pure (o, ⟨[.barrier], .value (.bool true)⟩)
  | .panic format args => do
    let m ← message i.host.room format args
    pure (o, ⟨lastWords o now (within "panic") m Backtrace.panicDepth, .fault (.panicked m)⟩)
  | .fatal format args => do
    let m ← message i.host.room format args
    pure (o, ⟨lastWords o now (within "fatal") m 0, .exit i.streams⟩)
  | .setPriority v => do
    let p ← Priority.ofValue v
    pure ({ o with threshold := p }, ofTasks [])
  | .setFlags v => do
    let f ← Flags.ofValue i.host.made v
    pure ({ o with flags := f }, ofTasks [])
  | .setPrefix v => pure ({ o with linePrefix := v }, ofTasks [])

end Plan

end LeveledLog
