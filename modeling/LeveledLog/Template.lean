import LeveledLog.Text.Numeral

/-!
Message templates: literal characters and directives. A directive starts with a percent sign and
has, in this order and all optional but the last: a key in parentheses, flags, a width, a
precision, a size letter without meaning, and the letter of a conversion. Two percent signs stand
for one.
-/

namespace LeveledLog.Template

inductive Size where
  | given (n : Nat)
  | excessive
  | taken
  deriving DecidableEq, Repr

/-- How a value is shown. Without a conversion letter the template ends inside the directive. -/
structure Directive where
  key : Option (List Char)
  leftAlign : Bool
  plus : Bool
  space : Bool
  alternate : Bool
  zero : Bool
  width : Option Size
  precision : Option Size
  conversion : Option Char
  deriving DecidableEq, Repr

inductive Piece where
  | literal (c : Char)
  | directive (d : Directive)
  /-- A key without its closing parenthesis; the template ends in it. -/
  | openKey
  deriving DecidableEq, Repr

/-- A key ends at the parenthesis that closes the one before it. -/
def scanKey : Nat → List Char → Option (List Char × List Char)
  | _, [] => none
  | depth, c :: rest =>
    if c = ')' then
      match depth with
      | 0 => some ([], rest)
      | depth + 1 => (scanKey depth rest).map fun r => (c :: r.1, r.2)
    else (scanKey (if c = '(' then depth + 1 else depth) rest).map fun r => (c :: r.1, r.2)

def isFlag (c : Char) : Bool := c == '-' || c == '+' || c == ' ' || c == '#' || c == '0'

def isDigit (c : Char) : Bool := '0' ≤ c && c ≤ '9'

def sizeOf (bound : Nat) (digits : List Char) : Size :=
  let n := Text.ofDigits 10 (digits.map fun c => c.toNat - 48)
  if n ≤ bound then .given n else .excessive

def scanSize (bound : Nat) : List Char → Option Size × List Char
  | '*' :: rest => (some .taken, rest)
  | s =>
    match s.takeWhile isDigit with
    | [] => (none, s)
    | ds => (some (sizeOf bound ds), s.dropWhile isDigit)

def widthBound : Nat := Nat.pow 2 63 - 1

def precisionBound : Nat := Nat.pow 2 31 - 1

def scanPrecision : List Char → Option Size × List Char
  | '.' :: rest =>
    let (size, rest) := scanSize precisionBound rest
    (some (size.getD (.given 0)), rest)
  | s => (none, s)

def skipSizeLetter : List Char → List Char
  | c :: rest => if c = 'h' ∨ c = 'l' ∨ c = 'L' then rest else c :: rest
  | [] => []

def scanBody (key : Option (List Char)) (s : List Char) : Directive × List Char :=
  let flags := s.takeWhile isFlag
  let (width, rest) := scanSize widthBound (s.dropWhile isFlag)
  let (precision, rest) := scanPrecision rest
  let rest := skipSizeLetter rest
  (⟨key, flags.contains '-', flags.contains '+', flags.contains ' ', flags.contains '#',
    flags.contains '0', width, precision, rest.head?⟩, rest.tail)

def scanDirective : List Char → Piece × List Char
  | '(' :: rest =>
    match scanKey 0 rest with
    | some (key, rest) => let (d, rest) := scanBody (some key) rest; (.directive d, rest)
    | none => (.openKey, [])
  | s => let (d, rest) := scanBody none s; (.directive d, rest)

theorem scan_key_shorter {depth : Nat} {s key rest : List Char}
    (h : scanKey depth s = some (key, rest)) : rest.length < s.length := by
  induction s generalizing depth key rest with
  | nil => simp [scanKey] at h
  | cons c s ih =>
    unfold scanKey at h
    split at h
    · split at h
      · cases h; simp
      · obtain ⟨⟨k, r⟩, hr, h⟩ := Option.map_eq_some_iff.1 h
        cases h
        have := ih hr
        simp only [List.length_cons]; omega
    · obtain ⟨⟨k, r⟩, hr, h⟩ := Option.map_eq_some_iff.1 h
      cases h
      have := ih hr
      simp only [List.length_cons]; omega

theorem length_dropWhile_le (p : Char → Bool) (s : List Char) :
    (s.dropWhile p).length ≤ s.length :=
  (List.dropWhile_sublist p).length_le

theorem scan_size_le (bound : Nat) (s : List Char) : (scanSize bound s).2.length ≤ s.length := by
  unfold scanSize
  split
  · simp
  · split
    · simp
    · exact length_dropWhile_le _ _

theorem scan_precision_le (s : List Char) : (scanPrecision s).2.length ≤ s.length := by
  unfold scanPrecision
  split
  · have := scan_size_le precisionBound ‹List Char›
    simp only [List.length_cons]; omega
  · simp

theorem skip_size_letter_le (s : List Char) : (skipSizeLetter s).length ≤ s.length := by
  unfold skipSizeLetter
  split
  · split <;> simp
  · simp

theorem scan_body_le (key : Option (List Char)) (s : List Char) :
    (scanBody key s).2.length ≤ s.length := by
  have h1 := length_dropWhile_le isFlag s
  have h2 := scan_size_le widthBound (s.dropWhile isFlag)
  have h3 := scan_precision_le (scanSize widthBound (s.dropWhile isFlag)).2
  have h4 := skip_size_letter_le (scanPrecision (scanSize widthBound (s.dropWhile isFlag)).2).2
  simp only [scanBody, List.length_tail]
  omega

theorem scan_directive_le (s : List Char) : (scanDirective s).2.length ≤ s.length := by
  unfold scanDirective
  split
  · split
    · next key rest h =>
      have := scan_key_shorter h
      have := scan_body_le (some key) rest
      simp only [List.length_cons]
      omega
    · simp
  · exact scan_body_le none s

def parse : List Char → List Piece
  | [] => []
  | '%' :: '%' :: rest => .literal '%' :: parse rest
  | '%' :: rest => (scanDirective rest).1 :: parse (scanDirective rest).2
  | c :: rest => .literal c :: parse rest
termination_by s => s.length
decreasing_by
  · simp only [List.length_cons]; omega
  · have := scan_directive_le rest
    simp only [List.length_cons]; omega
  · simp only [List.length_cons]; omega

end LeveledLog.Template
