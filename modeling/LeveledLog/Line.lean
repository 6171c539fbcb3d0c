import LeveledLog.Flags
import LeveledLog.Stamp
import LeveledLog.Text.CodePoint
import LeveledLog.Text.Numeral

/-!
Log lines. A line is a priority tag, a timestamp and a call site, each as far as the header options
ask for it, then the message, and always one newline at its end at least. Nothing here depends on
a logger.
-/

namespace LeveledLog

structure CallSite where
  file : String
  line : Option Int
  deriving DecidableEq, Repr

namespace CallSite

def unknown : CallSite := ⟨"???", some 0⟩

end CallSite

namespace Line

def part (width n : Nat) : List Char := Text.paddedDecimal width n

def date (t : Stamp) : List Char :=
  part 4 t.year ++ '/' :: part 2 t.month ++ '/' :: part 2 t.day

def time (t : Stamp) : List Char :=
  ' ' :: part 2 t.hour ++ ':' :: part 2 t.minute ++ ':' :: part 2 t.second

def fraction (t : Stamp) : List Char := '.' :: part 6 t.microsecond

def header (t : Stamp) (f : Flags) : List Char :=
  let clock := f.has .time || f.has .microseconds
  if f.has .date || clock then
    (if f.has .date then date t else []) ++
      (if clock then time t ++ (if f.has .microseconds then fraction t else []) else []) ++ [' ']
  else []

def baseName (path : List Char) : List Char :=
  (path.reverse.takeWhile (· != '/')).reverse

def shownFile (file : String) (f : Flags) : List Char :=
  if f.has .shortFile then baseName file.toList else file.toList

def lineNumber : Option Int → List Char
  | some n => Text.decimal n
  | none => "None".toList

def wantsSite (f : Flags) : Bool := f.has .longFile || f.has .shortFile

def siteInfo (site : CallSite) (f : Flags) : List Char :=
  if wantsSite f then
    '(' :: shownFile site.file f ++ ':' :: lineNumber site.line ++ [')', ' ']
  else []

/-- The priority tag and the timestamp; the system log writes its own. -/
def front (tag : List Char) (f : Flags) (now : Stamp) : List Char :=
  if f.has .syslog then [] else '<' :: tag ++ '>' :: ':' :: header now f

def complete (message : List CodePoint) : List CodePoint :=
  if message.getLast? = some (.char '\n') then message else message ++ [.char '\n']

def assemble (tag : List Char) (f : Flags) (message : List CodePoint) (site : Option CallSite)
    (now : Stamp) : List CodePoint :=
  Text.points (front tag f now ++ (match site with | some s => siteInfo s f | none => [])) ++
    complete message

def format (rank : Int) (f : Flags) (message : List CodePoint) (site : Option CallSite)
    (now : Stamp) : List CodePoint :=
  if message.isEmpty then [] else assemble (Text.decimal rank) f message site now

end Line

end LeveledLog
