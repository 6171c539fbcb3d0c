/-!
The classes of faults, as far as anything that handles a fault tells them apart.
-/

namespace LeveledLog

inductive FaultKind where
  | wrongType
  | wrongValue
  | missingAttribute
  | missingKey
  | overflow
  | system
  /-- The end of a thread or of the program, which nothing here handles. -/
  | abrupt (name : String)
  | other (name : String)
  deriving DecidableEq, Repr

inductive SystemError where
  | noEntry
  | badDescriptor
  | notDirectory
  | isDirectory
  | noSpace
  | nameTooLong
  | wrongProtocol
  | noBuffer
  | refused
  /-- Any other error, with its number if it has one. -/
  | other (number : Option Nat) (text : String)
  deriving DecidableEq, Repr

namespace SystemError

def number : SystemError → Option Nat
  | noEntry => some 2
  | badDescriptor => some 9
  | notDirectory => some 20
  | isDirectory => some 21
  | noSpace => some 28
  | nameTooLong => some 36
  | wrongProtocol => some 91
  | noBuffer => some 105
  | refused => some 111
  | other number _ => number

def text : SystemError → String
  | noEntry => "No such file or directory"
  | badDescriptor => "Bad file descriptor"
  | notDirectory => "Not a directory"
  | isDirectory => "Is a directory"
  | noSpace => "No space left on device"
  | nameTooLong => "File name too long"
  | wrongProtocol => "Protocol wrong type for socket"
  | noBuffer => "No buffer space available"
  | refused => "Connection refused"
  | other _ text => text

def message (e : SystemError) : String :=
  match e.number with
  | some number => "[Errno " ++ toString number ++ "] " ++ e.text
  | none => e.text

end SystemError

end LeveledLog
