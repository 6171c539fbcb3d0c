import LeveledLog.Text.Upper
import LeveledLog.Text.Utf8

/-!
Code points. A rendered text is made of code points, and not all of them are characters: a surrogate
is one half of a pair that stands for a character elsewhere, and stands for nothing alone. UTF-8 has
no bytes for it, so a text with a surrogate in it can be kept and passed on, but not encoded.
-/

namespace LeveledLog

inductive CodePoint where
  | char (c : Char)
  | surrogate (n : Fin 0x800)
  deriving DecidableEq, Repr

namespace CodePoint

def ofNat? (n : Nat) : Option CodePoint :=
  if hchar : n.isValidChar then some (.char (Char.ofNatAux n hchar))
  else if hsurrogate : 0xd800 ≤ n ∧ n < 0xe000 then some (.surrogate ⟨n - 0xd800, by omega⟩)
  else none

theorem ofNat?_isSome {n : Nat} : (ofNat? n).isSome = true ↔ n < 0x110000 := by
  by_cases hchar : n.isValidChar
  · rw [ofNat?, dif_pos hchar]
    exact iff_of_true rfl (by rcases hchar with h | h <;> omega)
  · rw [ofNat?, dif_neg hchar]
    rw [Nat.isValidChar] at hchar
    by_cases hsurrogate : 0xd800 ≤ n ∧ n < 0xe000
    · rw [dif_pos hsurrogate]
      exact iff_of_true rfl (by omega)
    · rw [dif_neg hsurrogate]
      exact iff_of_false Bool.false_ne_true (by omega)

def char? : CodePoint → Option Char
  | char c => some c
  | surrogate _ => none

def isChar (p : CodePoint) : Bool := p.char?.isSome

def utf8 : CodePoint → List UInt8
  | char c => String.utf8EncodeChar c
  | surrogate _ => []

def upper : CodePoint → List CodePoint
  | char c => (Text.upperChar c).map char
  | surrogate n => [surrogate n]

end CodePoint

namespace Text

def points (s : List Char) : List CodePoint := s.map .char

def isWhole (s : List CodePoint) : Bool := s.all (·.isChar)

def characters? (s : List CodePoint) : Option (List Char) := s.mapM (·.char?)

/-- The bytes of a text without surrogates. -/
def encode (s : List CodePoint) : List UInt8 := s.flatMap CodePoint.utf8

section

variable (s t : List Char) (u v : List CodePoint)

@[simp] theorem points_nil : points [] = [] := rfl
@[simp] theorem points_cons (c : Char) : points (c :: s) = .char c :: points s := rfl
@[simp] theorem points_append : points (s ++ t) = points s ++ points t := List.map_append
@[simp] theorem points_length : (points s).length = s.length := List.length_map _

theorem points_injective {s t : List Char} (h : points s = points t) : s = t :=
  List.map_inj_right (fun _ _ => CodePoint.char.inj) |>.mp h

@[simp] theorem points_eq_nil {s : List Char} : points s = [] ↔ s = [] := List.map_eq_nil_iff

@[simp] theorem isWhole_points : isWhole (points s) = true := by
  rw [isWhole, points, List.all_map]
  exact List.all_eq_true.mpr fun _ _ => rfl

@[simp] theorem encode_points : encode (points s) = utf8 s := by
  rw [encode, points, List.flatMap_map]
  rfl

theorem encode_append : encode (u ++ v) = encode u ++ encode v := List.flatMap_append

theorem isWhole_iff {u : List CodePoint} : isWhole u = true ↔ ∃ s, u = points s := by
  constructor
  · intro h
    induction u with
    | nil => exact ⟨[], rfl⟩
    | cons p u ih =>
      rw [isWhole, List.all_cons, Bool.and_eq_true, ← isWhole] at h
      obtain ⟨s, rfl⟩ := ih h.2
      cases p with
      | char c => exact ⟨c :: s, rfl⟩
      | surrogate n => cases h.1
  · rintro ⟨s, rfl⟩
    exact isWhole_points s

end

end Text

inductive Mode where
  | text
  | bytes
  deriving DecidableEq, Repr

/-- Whether there is anything to give for a text. -/
def Mode.takes (m : Mode) (s : List CodePoint) : Bool := m == .text || Text.isWhole s

end LeveledLog
