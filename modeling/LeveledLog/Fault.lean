import LeveledLog.Fault.Kind
import LeveledLog.Stamp
import LeveledLog.Text.CodePoint
import LeveledLog.Text.Numeral
import LeveledLog.Value

/-!
Faults: everything that can stop an operation, as causes, with the class and the wording of each.
-/

namespace LeveledLog

structure FieldProblem where
  field : String
  kind : String
  message : String
  deriving DecidableEq, Repr

inductive Fault where
  | wrongType
  | missingAttribute
  | scripted (kind : FaultKind)
  /-- A value, shown here, that is no member of the named set. -/
  | notMember (shown set : String)
  | numberTooLong
  | badNumeral (shown : String)
  /-- A text with this many digits, which are too many for an integer. -/
  | numeralTooLong (count : Nat)
  | badDecimal (shown : String)
  /-- A text that spells no bytes, with the position of what is no digit. -/
  | badHex (position : Nat)
  | nanToInteger
  | infinityToInteger
  | integerTooLargeForFloat
  | integerTooLargeForWidth
  | integerTooLargeForPrecision
  | precisionTooLarge
  | outOfMemory
  | noSuchCharacter
  | badStamp (e : StampError)
  | badTemplate
  | noSuchKey
  /-- A context was to be made of items of which this one, with this many parts, is no pair. -/
  | badPair (index parts : Nat)
  /-- A path, as text or as bytes, with a byte that no path has. -/
  | nulInPath (encoded : Bool)
  | system (e : SystemError)
  | abstractError
  | codeExpected
  | cannotOpen (path : Value) (shownPath quotedPath : String) (cause : SystemError)
  /-- The system log could not be reached; without a cause, there was nothing to try. -/
  | cannotConnect (address : Option String) (cause : Option SystemError)
  /-- No socket could be made. Nobody who connects one expects that. -/
  | noSocket (e : SystemError)
  | panicked (message : List CodePoint)
  | badSetting (key message : String) (shown : Option String)
  | badVariablePrefix
  | invalidSettings (problems : List FieldProblem)
  deriving Repr

namespace Fault

def kind : Fault → FaultKind
  | wrongType => .wrongType
  | missingAttribute => .missingAttribute
  | scripted k => k
  | notMember _ _ => .wrongValue
  | numberTooLong => .wrongValue
  | badNumeral _ => .wrongValue
  | numeralTooLong _ => .wrongValue
  | badDecimal _ => .wrongValue
  | badHex _ => .wrongValue
  | nanToInteger => .wrongValue
  | infinityToInteger => .overflow
  | integerTooLargeForFloat => .overflow
  | integerTooLargeForWidth => .overflow
  | integerTooLargeForPrecision => .overflow
  | precisionTooLarge => .overflow
  | outOfMemory => .other "MemoryError"
  | noSuchCharacter => .overflow
  | badStamp _ => .wrongValue
  | badTemplate => .wrongValue
  | noSuchKey => .missingKey
  | badPair _ _ => .wrongValue
  | nulInPath _ => .wrongValue
  | system _ => .system
  | abstractError => .wrongType
  | codeExpected => .wrongType
  | cannotOpen _ _ _ _ => .other "OpenError"
  | cannotConnect _ _ => .other "ConnectError"
  | noSocket _ => .system
  | panicked _ => .other "PanicError"
  | badSetting _ _ _ => .other "ConfigError"
  | badVariablePrefix => .other "SettingsError"
  | invalidSettings _ => .other "ValidationError"

def isAbrupt (f : Fault) : Bool :=
  match f.kind with
  | .abrupt _ => true
  | _ => false

def isWrongValue : Fault → Bool
  | badSetting _ _ _ => true
  | f => f.kind == .wrongValue

def systemError? : Fault → Option SystemError
  | system e => some e
  | scripted .system => some .noSpace
  | _ => none

def scriptedMessage : FaultKind → String
  | .system => SystemError.noSpace.message
  | .missingKey => "'spy'"
  | _ => "spy"

def digitLimitMessage (detail : String) : String :=
  "Exceeds the limit (4300 digits) for integer string conversion" ++ detail ++
    "; use sys.set_int_max_str_digits() to increase the limit"

/-- The wording of a fault; `none` when it carries no text worth showing, or one with a surrogate
in it. -/
def message? : Fault → Option String
  | wrongType => none
  | missingAttribute => none
  | scripted k => some (scriptedMessage k)
  | notMember shown set => some (shown ++ " is not a valid " ++ set)
  | numberTooLong => some (digitLimitMessage "")
  | badNumeral shown => some ("invalid literal for int() with base 10: " ++ shown)
  | numeralTooLong n =>
    some (digitLimitMessage (": value has " ++ String.ofList (Text.natural 10 n) ++ " digits"))
  | badDecimal shown => some ("could not convert string to float: " ++ shown)
  | badHex position =>
    some ("non-hexadecimal number found in fromhex() arg at position " ++ toString position)
  | nanToInteger => some "cannot convert float NaN to integer"
  | infinityToInteger => some "cannot convert float infinity to integer"
  | integerTooLargeForFloat => some "int too large to convert to float"
  | integerTooLargeForWidth => some "Python int too large to convert to C ssize_t"
  | integerTooLargeForPrecision => some "Python int too large to convert to C int"
  | precisionTooLarge => some "precision too large"
  | outOfMemory => some ""
  | noSuchCharacter => some "%c arg not in range(0x110000)"
  | badStamp e => some e.message
  | badTemplate => none
  | noSuchKey => none
  | badPair index parts =>
    some ("dictionary update sequence element #" ++ toString index ++ " has length " ++
      toString parts ++ "; 2 is required")
  | nulInPath false => some "embedded null byte"
  | nulInPath true => some "open: embedded null character in path"
  | system e => some e.message
  | abstractError =>
    some "Do not instantiate LvlogError directly; subclass it for specific errors."
  | codeExpected => some "code must be an ErrorCode instance, not a string"
  | cannotOpen _ shownPath quotedPath cause =>
    some ("Can't open log file '" ++ shownPath ++ "': " ++ cause.message ++ ": " ++ quotedPath)
  | cannotConnect _ (some cause) => some ("Can't open SYSLOG connection: " ++ cause.message)
  | cannotConnect _ none =>
    some "Can't open SYSLOG connection: unix sockets are not supported"
  | noSocket e => some e.message
  | panicked message => (Text.characters? message).map String.ofList
  | badSetting _ message _ => some message
  | badVariablePrefix =>
    some "error getting value for field \"destination\" from source \"EnvSettingsSource\""
  | invalidSettings _ => none

def wording? : Fault → Option (List CodePoint)
  | panicked message => some message
  | f => f.message?.map fun s => Text.points s.toList

end Fault

end LeveledLog
