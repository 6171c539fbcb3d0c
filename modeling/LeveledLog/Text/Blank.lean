/-!
Blank characters (Unicode 14.0): what separates words and what is stripped from both ends of a
setting. The control separators U+001C to U+001F and the next line character count as blank.
-/

namespace LeveledLog.Text

def isBlank (c : Char) : Bool :=
  let n := c.val.toNat
  (9 ≤ n && n ≤ 13) || (28 ≤ n && n ≤ 32) || n == 0x85 || n == 0xa0 || n == 0x1680 ||
    (0x2000 ≤ n && n ≤ 0x200a) || n == 0x2028 || n == 0x2029 || n == 0x202f || n == 0x205f ||
    n == 0x3000

/-- Around a number the control separators are not taken for blanks. -/
def isNumberBlank (c : Char) : Bool := isBlank c && !(28 ≤ c.val.toNat && c.val.toNat ≤ 31)

def trim (drop : Char → Bool) (s : List Char) : List Char :=
  ((s.dropWhile drop).reverse.dropWhile drop).reverse

def strip (s : List Char) : List Char := trim isBlank s

/-- The pieces between separators, empty ones included; there is one more than there are
separators. -/
def pieces (isSeparator : Char → Bool) : List Char → List (List Char)
  | [] => [[]]
  | c :: rest =>
    if isSeparator c then [] :: pieces isSeparator rest
    else
      match pieces isSeparator rest with
      | [] => [[c]]
      | piece :: more => (c :: piece) :: more

def words (isSeparator : Char → Bool) (s : List Char) : List (List Char) :=
  (pieces isSeparator s).filter (!·.isEmpty)

end LeveledLog.Text
