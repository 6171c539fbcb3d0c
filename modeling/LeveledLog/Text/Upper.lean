/-!
Upper case, as far as it is needed to recognise an ASCII name. A few characters beyond ASCII have
an upper case form of ASCII letters (dotless i, long s, sharp s, the Latin ligatures) and so may
spell such a name. Every other character beyond ASCII keeps a character beyond ASCII in its upper
case form, so it is left as it is: a text that holds one equals no ASCII name either way.
-/

namespace LeveledLog.Text

def upperChar (c : Char) : List Char :=
  if 'a' ≤ c ∧ c ≤ 'z' then [Char.ofNat (c.toNat - 32)]
  else
    match c.toNat with
    | 0xdf => ['S', 'S']
    | 0x131 => ['I']
    | 0x17f => ['S']
    | 0xfb00 => ['F', 'F']
    | 0xfb01 => ['F', 'I']
    | 0xfb02 => ['F', 'L']
    | 0xfb03 => ['F', 'F', 'I']
    | 0xfb04 => ['F', 'F', 'L']
    | 0xfb05 => ['S', 'T']
    | 0xfb06 => ['S', 'T']
    | _ => [c]

def upper (s : List Char) : List Char := s.flatMap upperChar

def lowerAscii (s : String) : String :=
  String.ofList <| s.toList.map fun c =>
    if 'A' ≤ c ∧ c ≤ 'Z' then Char.ofNat (c.toNat + 32) else c

end LeveledLog.Text
