import LeveledLog.Text.Numeral
import LeveledLog.Text.Printable

/-!
Quoted text and quoted bytes. The quote is single unless the content has single quotes and no
double ones. The quote and the backslash are escaped; line feed, carriage return and tab have
escapes of their own; what is not printable is written as its code point in hexadecimal.
-/

namespace LeveledLog.Text

def chooseQuote (hasSingle hasDouble : Bool) : Char :=
  if hasSingle && !hasDouble then '"' else '\''

def hex (width n : Nat) : List Char := zeroFill width (natural 16 n)

def escapePoint (n : Nat) : List Char :=
  if n < 0x100 then '\\' :: 'x' :: hex 2 n
  else if n < 0x10000 then '\\' :: 'u' :: hex 4 n
  else '\\' :: 'U' :: hex 8 n

def escapeChar (quote c : Char) : List Char :=
  if c = quote ∨ c = '\\' then ['\\', c]
  else if c = '\n' then ['\\', 'n']
  else if c = '\r' then ['\\', 'r']
  else if c = '\t' then ['\\', 't']
  else if isPrintable c then [c]
  else escapePoint c.toNat

def quote (s : List Char) : List Char :=
  let q := chooseQuote (s.contains '\'') (s.contains '"')
  q :: (s.flatMap (escapeChar q) ++ [q])

def escapeByte (quote : Char) (b : UInt8) : List Char :=
  if 0x20 ≤ b ∧ b < 0x7f then escapeChar quote (Char.ofNat b.toNat)
  else if b = 0x0a ∨ b = 0x0d ∨ b = 0x09 then escapeChar quote (Char.ofNat b.toNat)
  else escapePoint b.toNat

def quoteBytes (bs : List UInt8) : List Char :=
  let q := chooseQuote (bs.contains 0x27) (bs.contains 0x22)
  'b' :: q :: (bs.flatMap (escapeByte q) ++ [q])

def toAscii (s : List Char) : List Char :=
  s.flatMap fun c => if c.toNat < 0x80 then [c] else escapePoint c.toNat

end LeveledLog.Text
