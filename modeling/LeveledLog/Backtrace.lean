import LeveledLog.Line

/-!
Backtraces: the frames of a call stack, innermost first, as one block of indented lines.
-/

namespace LeveledLog

structure Frame where
  file : String
  line : Option Int
  moduleName : Option String
  function : String
  deriving DecidableEq, Repr

abbrev Stack := List Frame

namespace Frame

/-- A frame of a function of the library itself. -/
def own (function : String) : Frame := ⟨"lvlog/logger.py", none, some "lvlog.logger", function⟩

def ofMethod (method : String) : Frame := own ("Logger." ++ method)

def site (fr : Frame) : CallSite := ⟨fr.file, fr.line⟩

def render (fr : Frame) : List Char :=
  match fr.line with
  | none => "*unknown*".toList
  | some n =>
    if fr.file.isEmpty then "*unknown*".toList
    else
      fr.file.toList ++ ':' :: Text.decimal n ++ ' ' :: '[' ::
        (fr.moduleName.getD "?").toList ++ '.' :: fr.function.toList ++ [']']

end Frame

namespace Stack

/-- The place so many frames beyond the one that a stack begins with. -/
def siteBeyond (stack : Stack) (depth : Nat) : CallSite :=
  match stack[depth]? with
  | some fr => fr.site
  | none => .unknown

end Stack

namespace Backtrace

def frameLimit : Nat := 64

def panicDepth : Nat := 5

/-- The frames that a backtrace shows: at most `depth` of them, and all of them for depth zero. -/
def frames (stack : Stack) (depth : Nat) : Stack :=
  let most := stack.take frameLimit
  if depth = 0 then most else most.take depth

def indented (lines : List (List Char)) : List Char :=
  lines.flatMap fun l => "\n    ".toList ++ l

/-- The block: a title, a line for each frame, and an empty entry that ends it. -/
def block (frames : Stack) : List Char :=
  "Backtrace:".toList ++ indented (frames.map Frame.render ++ [['\n']])

end Backtrace

end LeveledLog
