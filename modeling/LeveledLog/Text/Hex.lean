/-!
Bytes as pairs of hexadecimal digits. Blanks may stand between pairs, and nothing else may.
-/

namespace LeveledLog.Text

def hexValue? (c : Char) : Option Nat :=
  if '0' ≤ c ∧ c ≤ '9' then some (c.toNat - '0'.toNat)
  else if 'a' ≤ c ∧ c ≤ 'f' then some (c.toNat - 'a'.toNat + 10)
  else if 'A' ≤ c ∧ c ≤ 'F' then some (c.toNat - 'A'.toNat + 10)
  else none

def isHexBlank (c : Char) : Bool := c == ' ' || ('\t' ≤ c && c ≤ '\r')

def hexPairs (position : Nat) : List Char → Except Nat (List UInt8)
  | [] => .ok []
  | c :: rest =>
    match hexValue? c, rest with
    | some high, d :: rest =>
      match hexValue? d with
      | some low => (hexPairs (position + 2) rest).map ((high * 16 + low).toUInt8 :: ·)
      | none => .error (position + 1)
    | some _, [] => .error (position + 1)
    | none, rest => if isHexBlank c then hexPairs (position + 1) rest else .error position

def bytesOfHex (s : List Char) : Except Nat (List UInt8) :=
  match s.findIdx? fun c => 0x80 ≤ c.toNat with
  | some position => .error position
  | none => hexPairs 0 s

end LeveledLog.Text
