import LeveledLog.Fault
import LeveledLog.Number.Decimal
import LeveledLog.Text.Quoted
import LeveledLog.Value

/-!
How values are written. A value has a plain text, for messages, and a shown form, which tells
values of different types apart and is used inside containers. Writing counts every look at a
probe, also when it ends in a fault.
-/

namespace LeveledLog

/-- Rendering: it may end in a fault, and it counts the looks at probes either way. -/
abbrev Render (α : Type) : Type := ExceptT Fault (StateM Nat) α

namespace Render

def outcome {α : Type} (r : Render α) : Except Fault α := (r.run.run 0).1

def observe {α : Type} (r : Render α) : Render (Except Fault α) :=
  tryCatch (Except.ok <$> r) fun f => pure (.error f)

def look (result : Except FaultKind String) : Render (List Char) := do
  modify (· + 1)
  match result with
  | .ok s => pure s.toList
  | .error k => throw (.scripted k)

end Render

/-- How many characters the longest text has that there is memory for. -/
abbrev Room := Fin (Nat.pow 2 63)

def Room.usual : Room := ⟨Nat.pow 2 32, by decide⟩

namespace Value

def checkSize (room : Room) (size : Nat) : Render Unit :=
  if room.val < size then throw .outOfMemory else pure ()

def commas : List (List Char) → List Char
  | [] => []
  | [x] => x
  | x :: rest => x ++ ',' :: ' ' :: commas rest

def integerText (i : Int) : Render (List Char) :=
  match Text.decimal? i with
  | some s => pure s
  | .none => throw .numberTooLong

def Probe.look (p : Probe) : Render (List Char) :=
  Render.look (match p.shownFault with | some k => .error k | .none => .ok p.shown)

def Probe.lookText (p : Probe) : Render (List Char) :=
  Render.look (match p.textFault with | some k => .error k | .none => .ok p.text)

mutual

def shown : Value → Render (List Char)
  | none => pure "None".toList
  | bool b => pure (if b then "True" else "False").toList
  | int i => integerText i
  | float x => pure x.text
  | text s => pure (Text.quote s.toList)
  | bytes bs => pure (Text.quoteBytes bs)
  | list xs => do
    let ps ← shownList xs
    pure ('[' :: commas ps ++ [']'])
  | tuple xs => do
    let ps ← shownList xs
    match ps with
    | [p] => pure ('(' :: p ++ [',', ')'])
    | ps => pure ('(' :: commas ps ++ [')'])
  | dict es => do
    let ps ← shownEntries es
    pure ('\x7b' :: commas ps ++ ['\x7d'])
  | view es => do
    let ps ← shownEntries es
    pure ("mappingproxy(".toList ++ '\x7b' :: commas ps ++ ['\x7d', ')'])
  | priority p => pure p.describe.toList
  | flags f =>
    match f.describe? with
    | some s => pure s.toList
    | .none => throw .numberTooLong
  | probe p => Probe.look p
  | category _ => pure "<ErrorCategory>".toList
  | code _ => pure "<ErrorCode>".toList
  | severity s => pure s.describe.toList

def shownList : List Value → Render (List (List Char))
  | [] => pure []
  | x :: xs => do
    let p ← shown x
    let ps ← shownList xs
    pure (p :: ps)

def shownEntries : List (Value × Value) → Render (List (List Char))
  | [] => pure []
  | (k, v) :: rest => do
    let p ← shown k
    let q ← shown v
    let ps ← shownEntries rest
    pure ((p ++ ':' :: ' ' :: q) :: ps)

end

def plain : Value → Render (List Char)
  | text s => pure s.toList
  | probe p => Probe.lookText p
  | category n => pure n.toList
  | code c => pure c.code.toList
  | severity s => pure s.label.toList
  | priority p => pure (Text.natural 10 p.rank)
  | flags f => integerText f.bits
  | view es => shown (dict es)
  | v => shown v

def ascii (v : Value) : Render (List Char) := Text.toAscii <$> v.shown

inductive Display where
  | asIs (v : Value)
  | shown (text : List Char)
  deriving Repr

def display (v : Value) : Render Display :=
  match v with
  | none => pure (.asIs v)
  | bool _ => pure (.asIs v)
  | int _ => pure (.asIs v)
  | text _ => pure (.asIs v)
  | v => Display.shown <$> v.shown

end Value

end LeveledLog
