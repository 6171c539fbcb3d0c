import LeveledLog.Fault.Kind
import LeveledLog.Text.Utf8

/-!
Files and directories, as far as a program sees them that opens log files in and below its working
directory. A path leads from directory to directory, and what it cannot pass decides the error.
Opening for writing creates the file or erases it. Each writer has a position of its own, and a
gap that it leaves behind is filled with zeros.
-/

namespace LeveledLog

abbrev Name := List UInt8

/-- The names that lead from the working directory to a place. A place above it begins with names
of the directory above, a place below the root with the root's own name, a slash. -/
abbrev Place := List Name

structure File where
  content : List UInt8
  mode : Nat
  deriving DecidableEq, Repr

/-- All directories but the working directory, and all files with the places they are at. -/
structure Files where
  directories : List Place
  files : List (Place × File)
  deriving DecidableEq, Repr

structure Writer where
  place : Place
  position : Nat
  deriving DecidableEq, Repr

namespace Files

def empty : Files := ⟨[], []⟩

def privateMode : Nat := 0o600

def ordinaryMode : Nat := 0o644

def nameLimit : Nat := 255

def pathLimit : Nat := 4096

def file? (fs : Files) (p : Place) : Option File := fs.files.lookup p

inductive Node where
  | directory
  | file (f : File)
  | nothing

def slash : UInt8 := 0x2f

def names (path : List UInt8) : List Name :=
  path.splitOn slash

def isHere (n : Name) : Bool := n.isEmpty || n == [0x2e]

def isUp (n : Name) : Bool := n == [0x2e, 0x2e]

def root : Place := [[slash]]

def isAbove (p : Place) : Bool := p == root || p.all isUp

/-- Whether a directory is at a place. What is above the working directory is there. -/
def hasDirectory (fs : Files) (p : Place) : Bool := isAbove p || fs.directories.contains p

def node (fs : Files) (p : Place) : Node :=
  if fs.hasDirectory p then .directory
  else
    match fs.file? p with
    | some f => .file f
    | none => .nothing

def above (p : Place) : Place :=
  if p == root then root
  else if p.all isUp then p ++ [[0x2e, 0x2e]]
  else p.dropLast

def enter (fs : Files) : Place → List Name → Except SystemError Place
  | here, [] => .ok here
  | here, n :: rest =>
    if isHere n then enter fs here rest
    else if isUp n then enter fs (above here) rest
    else if nameLimit < n.length then .error .nameTooLong
    else
      match fs.node (here ++ [n]) with
      | .directory => enter fs (here ++ [n]) rest
      | .file _ => .error .notDirectory
      | .nothing => .error .noEntry

/-- Where a path leads: to a directory, or to a name in one, with whether a slash follows it. -/
inductive Target where
  | directory
  | entry (place : Place) (slashed : Bool)

/-- The last name of a path that is not empty, with what comes before it and whether a slash
follows it. -/
def splitLast (path : List UInt8) : Option (List Name × Name × Bool) :=
  let parts := names path
  let trailing := parts.reverse.takeWhile (·.isEmpty)
  match parts.reverse.dropWhile (·.isEmpty) with
  | [] => none
  | last :: before => some (before.reverse, last, !trailing.isEmpty)

def resolve (fs : Files) (path : List UInt8) : Except SystemError Target :=
  if path.isEmpty then .error .noEntry
  else if pathLimit ≤ path.length then .error .nameTooLong
  else
    match splitLast path with
    | none => .ok .directory
    | some (before, last, slashed) =>
      match enter fs (if path.head? = some slash then root else []) before with
      | .error e => .error e
      | .ok here =>
        if isHere last || isUp last then .ok .directory else .ok (.entry (here ++ [last]) slashed)

def put (fs : Files) (p : Place) (f : File) : Files :=
  if (fs.file? p).isSome then
    { fs with files := fs.files.map fun e => if e.1 = p then (p, f) else e }
  else { fs with files := fs.files ++ [(p, f)] }

/-- Opens a path for writing. The file is created if there is none, and erased if there is one. -/
def openForWriting (fs : Files) (path : List UInt8) : Except SystemError (Files × Writer) :=
  match fs.resolve path with
  | .error e => .error e
  | .ok .directory => .error .isDirectory
  | .ok (.entry p slashed) =>
    if slashed then .error .isDirectory
    else if nameLimit < (p.getLast?.getD []).length then .error .nameTooLong
    else
      match fs.node p with
      | .directory => .error .isDirectory
      | .file f => .ok (fs.put p ⟨[], f.mode⟩, ⟨p, 0⟩)
      | .nothing => .ok (fs.put p ⟨[], privateMode⟩, ⟨p, 0⟩)

def overwrite (content : List UInt8) (position : Nat) (bytes : List UInt8) : List UInt8 :=
  content.take position ++ List.replicate (position - content.length) 0 ++ bytes ++
    content.drop (position + bytes.length)

def write (fs : Files) (w : Writer) (bytes : List UInt8) : Files × Writer :=
  let f := (fs.file? w.place).getD ⟨[], privateMode⟩
  (fs.put w.place { f with content := overwrite f.content w.position bytes },
    { w with position := w.position + bytes.length })

def read (fs : Files) (path : List UInt8) : Except SystemError File :=
  match fs.resolve path with
  | .error e => .error e
  | .ok .directory => .error .isDirectory
  | .ok (.entry p slashed) =>
    if nameLimit < (p.getLast?.getD []).length then .error .nameTooLong
    else
      match fs.node p with
      | .directory => .error .isDirectory
      | .file f => if slashed then .error .notDirectory else .ok f
      | .nothing => .error .noEntry

def makePlace (fs : Files) (place : Place) : Files :=
  let places := (List.range place.length).map fun n => place.take (n + 1)
  { fs with directories := fs.directories ++ places.filter (!fs.hasDirectory ·) }

def makeDirectories (fs : Files) (path : List UInt8) : Files :=
  fs.makePlace ((names path).filter (!isHere ·))

def addFile (fs : Files) (path : List UInt8) (text : List Char) : Files :=
  let place := (names path).filter (!isHere ·)
  (fs.makePlace place.dropLast).put place ⟨Text.utf8 text, ordinaryMode⟩

end Files

end LeveledLog
