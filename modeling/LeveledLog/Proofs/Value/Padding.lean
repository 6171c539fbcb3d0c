import LeveledLog.Line
import LeveledLog.Proofs.Text.Numeral
import LeveledLog.Value.Number

/-!
Integers in fields of a width. An integer is written with zeros between its sign and its digits, as
many as the width leaves room for. The integer can be read back from its field, so in one width no
two integers share a field. No text has room for a width beyond the largest text.
-/

namespace LeveledLog

namespace Text

def sign (i : Int) : List Char := if i < 0 then ['-'] else []

def figures (s : List Char) : Nat := s.countP fun c => (decimalValue? c).isSome

/-- A text of decimal digits that are worth an integer, behind a minus sign if it is negative. -/
inductive Spells : List Char → Int → Prop where
  | natural {s : List Char} (nonempty : s ≠ []) (digits : ∀ c ∈ s, (decimalValue? c).isSome) :
      Spells s (worth s)
  | negative {s : List Char} (digits : ∀ c ∈ s, (decimalValue? c).isSome)
      (positive : 0 < worth s) : Spells ('-' :: s) (-(worth s : Int))

/-- The text of an integer in a field of a width. -/
structure Field (width i : Int) (s : List Char) : Prop where
  spells : Spells s i
  length : (s.length : Int) = max width (decimal i).length
  negative : s.head? = some '-' ↔ i < 0
  zeros : ∃ k, s = sign i ++ List.replicate k '0' ++ natural 10 i.natAbs
  unpadded : width ≤ (decimal i).length → s = decimal i

section

variable {i j width : Int} {s : List Char}

theorem figures_of_digits (h : ∀ c ∈ s, (decimalValue? c).isSome) : figures s = s.length :=
  List.countP_eq_length.mpr h

theorem figures_negative (h : ∀ c ∈ s, (decimalValue? c).isSome) :
    figures ('-' :: s) = s.length := by
  have hsign : ¬(decimalValue? '-').isSome := by decide
  have hcount := List.countP_cons_of_neg (p := fun c => (decimalValue? c).isSome) (l := s) hsign
  rw [figures, hcount]
  exact figures_of_digits h

theorem worth_nil : worth [] = 0 := rfl

/-- A text spells one integer at most. -/
theorem Spells.unique (hi : Spells s i) (hj : Spells s j) : i = j := by
  have hsign : ¬(decimalValue? '-').isSome := by decide
  cases hi with
  | natural _ digits =>
    cases hj with
    | natural => rfl
    | negative => exact absurd (digits '-' List.mem_cons_self) hsign
  | negative =>
    cases hj with
    | natural _ digits => exact absurd (digits '-' List.mem_cons_self) hsign
    | negative => rfl

/-- The integer that a text spells is read from it, unless the text has too many digits. -/
theorem Spells.read (h : Spells s i) :
    readInteger s =
      if digitLimit < figures s then .error (.tooLong (figures s)) else .ok i := by
  cases h with
  | natural nonempty digits =>
    rw [figures_of_digits digits]
    exact readInteger_decimal nonempty digits
  | @negative s digits positive =>
    have hs : s ≠ [] := by
      rintro rfl
      exact absurd positive (Nat.lt_irrefl 0)
    rw [figures_negative digits]
    exact readInteger_negative hs digits

theorem decimal_eq (i : Int) : decimal i = sign i ++ natural 10 i.natAbs := by
  by_cases hneg : i < 0
  · rw [decimal, sign, if_pos hneg, if_pos hneg, List.singleton_append]
  · rw [decimal, sign, if_neg hneg, if_neg hneg, List.nil_append]

/-- The zeros stand between the sign and the digits. -/
theorem paddedDecimal_eq (n : Nat) (i : Int) :
    paddedDecimal n i =
      sign i ++ List.replicate (n - (decimal i).length) '0' ++ natural 10 i.natAbs := by
  by_cases hneg : i < 0
  · have hdecimal : decimal i = '-' :: natural 10 i.natAbs := if_pos hneg
    have hsign : sign i = ['-'] := if_pos hneg
    rw [paddedDecimal, hdecimal, hsign]
    rfl
  · have hdecimal : decimal i = natural 10 i.natAbs := if_neg hneg
    have hsign : sign i = [] := if_neg hneg
    rw [paddedDecimal, hdecimal, hsign, zeroFill_of_decimal fun _ => natural_decimal]
    rfl

theorem natural_zero : natural 10 0 = ['0'] := by
  rw [natural, digits_zero]
  rfl

theorem paddedDecimal_zero {n : Nat} (h : n ≤ 1) : paddedDecimal n 0 = ['0'] := by
  have hdecimal : decimal 0 = ['0'] := natural_zero
  have hnone : n - ['0'].length = 0 := Nat.sub_eq_zero_of_le h
  rw [paddedDecimal_eq, hdecimal, hnone]
  exact natural_zero

theorem natural_ne_nil (n : Nat) : natural 10 n ≠ [] := by
  intro h
  have hworth := worth_natural n
  rw [h, worth_nil] at hworth
  subst hworth
  rw [natural_zero] at h
  cases h

theorem padded_digits {c : Char} {k n : Nat} (h : c ∈ List.replicate k '0' ++ natural 10 n) :
    (decimalValue? c).isSome := by
  rcases List.mem_append.mp h with hzero | hdigit
  · rw [List.eq_of_mem_replicate hzero]
    decide
  · exact natural_decimal hdigit

theorem spells_padded (k : Nat) (i : Int) :
    Spells (sign i ++ List.replicate k '0' ++ natural 10 i.natAbs) i := by
  have hworth : worth (List.replicate k '0' ++ natural 10 i.natAbs) = i.natAbs := by
    rw [worth_zeros, worth_natural]
  have hdigits : ∀ c ∈ List.replicate k '0' ++ natural 10 i.natAbs, (decimalValue? c).isSome :=
    fun _ => padded_digits
  by_cases hneg : i < 0
  · have hspells := Spells.negative hdigits (by rw [hworth]; omega)
    have hvalue : -(i.natAbs : Int) = i := by omega
    rw [hworth, hvalue] at hspells
    rw [sign, if_pos hneg, List.append_assoc]
    exact hspells
  · have hnonempty : List.replicate k '0' ++ natural 10 i.natAbs ≠ [] := by
      intro h
      exact natural_ne_nil _ (List.append_eq_nil_iff.mp h).2
    have hspells := Spells.natural hnonempty hdigits
    have hvalue : (i.natAbs : Int) = i := by omega
    rw [hworth, hvalue] at hspells
    rw [sign, if_neg hneg, List.nil_append]
    exact hspells

theorem Spells.negative_iff (h : Spells s i) : s.head? = some '-' ↔ i < 0 := by
  cases h with
  | natural _ digits =>
    constructor
    · intro hhead
      exact absurd (digits '-' (List.mem_of_head? hhead)) (by decide)
    · intro hneg
      omega
  | negative _ positive =>
    constructor
    · intro _
      omega
    · intro _
      rfl

theorem field_paddedDecimal (width i : Int) : Field width i (paddedDecimal width.toNat i) := by
  have hdecimal : (decimal i).length = (sign i).length + (natural 10 i.natAbs).length := by
    rw [decimal_eq, List.length_append]
  have hspells : Spells (paddedDecimal width.toNat i) i := by
    rw [paddedDecimal_eq]
    exact spells_padded _ i
  refine ⟨hspells, ?_, hspells.negative_iff, ⟨_, paddedDecimal_eq _ i⟩, ?_⟩
  · rw [paddedDecimal_eq, List.length_append, List.length_append, List.length_replicate]
    omega
  · intro hwidth
    have hnone : width.toNat - (decimal i).length = 0 := by omega
    rw [paddedDecimal_eq, hnone, List.replicate_zero, List.append_nil, ← decimal_eq]

theorem Field.figures_eq (h : Field width i s) : figures s + (sign i).length = s.length := by
  obtain ⟨k, hk⟩ := h.zeros
  have hsign : figures (sign i) = 0 := by
    by_cases hneg : i < 0
    · rw [sign, if_pos hneg]
      decide
    · rw [sign, if_neg hneg]
      rfl
  have hdigits : figures (List.replicate k '0' ++ natural 10 i.natAbs) =
      (List.replicate k '0' ++ natural 10 i.natAbs).length :=
    figures_of_digits fun _ => padded_digits
  rw [List.append_assoc] at hk
  have hfigures := (congrArg figures hk).trans List.countP_append
  have hlength := (congrArg List.length hk).trans List.length_append
  rw [← figures, ← figures, hsign, hdigits] at hfigures
  omega

theorem natural_length_le {n limit : Nat} (h : n < 10 ^ limit) (hlimit : 0 < limit) :
    (natural 10 n).length ≤ limit := by
  rw [natural, List.length_map]
  exact digits_length_le hlimit h

/-- A field of no more digits than can be read is read back as its integer. -/
theorem Field.read (h : Field width i s) (hwidth : width ≤ digitLimit)
    (hi : i.natAbs < 10 ^ digitLimit) : readInteger s = .ok i := by
  have hread := h.spells.read
  have hlimit : 0 < digitLimit := by decide
  -- The bound is kept a variable, so that its power is not computed.
  generalize digitLimit = limit at hwidth hi hread hlimit
  have hdecimal : (decimal i).length = (sign i).length + (natural 10 i.natAbs).length := by
    rw [decimal_eq, List.length_append]
  have hnatural := natural_length_le hi hlimit
  have hfigures := h.figures_eq
  have hlength := h.length
  rw [hread, if_neg (by omega)]

end

end Text

namespace Value

open Text

section

variable {room : Room} {i width : Int} {s : List Char}

theorem checkSize_of_le {n : Nat} (h : n ≤ room.val) : checkSize room n = pure () :=
  if_neg (Nat.not_lt.mpr h)

theorem checkSize_of_lt {n : Nat} (h : room.val < n) : checkSize room n = throw .outOfMemory :=
  if_pos h

theorem equals_zero (i : Int) : (int i).equals (int 0) = decide (i = 0) := by
  simp [equals, numberEquals?, int?, Bool.beq_eq_decide_eq]

theorem plain_int (hi : i.natAbs < 10 ^ digitLimit) : (int i).plain = pure (decimal i) := by
  have hplain : (int i).plain = integerText i := rfl
  rw [hplain]
  unfold integerText
  rw [decimal?_of_lt hi]

/-- The single digit that zero has when the width leaves room for no more is how it is written in
any case. -/
theorem padded_int (room : Room) (width : Int) (hi : i.natAbs < 10 ^ digitLimit) :
    padded room width (int i) =
      if i = 0 ∧ width ≤ 1 then pure (paddedDecimal width.toNat i)
      else if Nat.pow 2 63 ≤ width then throw .integerTooLargeForWidth
      else (checkSize room width.toNat >>= fun _ => pure (paddedDecimal width.toNat i)) := by
  unfold padded
  rw [equals_zero, plain_int hi, pure_bind]
  by_cases hdigit : i = 0 ∧ width ≤ 1
  · obtain ⟨rfl, hnarrow⟩ := hdigit
    rw [if_pos (by simpa using hnarrow), if_pos ⟨rfl, hnarrow⟩, paddedDecimal_zero (by omega)]
  · rw [if_neg (by simpa using hdigit), if_neg hdigit]
    rfl

theorem padded_of_room (hwidth : width ≤ room.val) (hi : i.natAbs < 10 ^ digitLimit) :
    padded room width (int i) = pure (paddedDecimal width.toNat i) := by
  have hsmall : ¬((Nat.pow 2 63 : Nat) : Int) ≤ width := by
    have hroom := room.isLt
    omega
  rw [padded_int room width hi]
  by_cases hdigit : i = 0 ∧ width ≤ 1
  · rw [if_pos hdigit]
  · rw [if_neg hdigit, if_neg hsmall, checkSize_of_le (by omega), pure_bind]

def refusal (width : Int) : Fault :=
  if Nat.pow 2 63 ≤ width then .integerTooLargeForWidth else .outOfMemory

theorem padded_of_no_room (hwidth : room.val < width) (hi : i.natAbs < 10 ^ digitLimit)
    (more : ¬(i = 0 ∧ width ≤ 1)) : padded room width (int i) = throw (refusal width) := by
  rw [padded_int room width hi, if_neg more, refusal]
  by_cases hlarge : ((Nat.pow 2 63 : Nat) : Int) ≤ width
  · rw [if_pos hlarge, if_pos hlarge]
  · rw [if_neg hlarge, if_neg hlarge, checkSize_of_lt (by omega)]
    rfl

theorem padded_of_long (room : Room) (width : Int) (hi : 10 ^ digitLimit ≤ i.natAbs) :
    padded room width (int i) = throw .numberTooLong := by
  have hplain : (int i).plain = integerText i := rfl
  have htext : integerText i = throw .numberTooLong := by
    unfold integerText
    rw [decimal?_eq_none_iff.mpr hi]
  have hnonzero : ¬(decide (i = 0) && decide (width ≤ 1)) = true := by
    intro h
    have hzero := of_decide_eq_true (Bool.and_eq_true_iff.mp h).1
    rw [hzero, Int.natAbs_zero] at hi
    exact absurd hi (Nat.not_le.mpr (Nat.pow_pos (by decide)))
  unfold padded
  rw [equals_zero, if_neg hnonzero, hplain, htext]
  rfl

theorem throw_ne_pure (f : Fault) (s : List Char) : (throw f : Render (List Char)) ≠ pure s := by
  intro h
  have houtcome : Except.error f = Except.ok s := congrArg Render.outcome h
  cases houtcome

theorem padded_eq_pure (h : padded room width (int i) = pure s) :
    i.natAbs < 10 ^ digitLimit ∧ s = paddedDecimal width.toNat i := by
  have hwritten : padded room width (int i) = pure (paddedDecimal width.toNat i) →
      s = paddedDecimal width.toNat i := by
    intro hpure
    have houtcome : Except.ok (paddedDecimal width.toNat i) = Except.ok s :=
      congrArg Render.outcome (hpure.symm.trans h)
    exact (Except.ok.inj houtcome).symm
  by_cases hlong : 10 ^ digitLimit ≤ i.natAbs
  · rw [padded_of_long room width hlong] at h
    exact absurd h (throw_ne_pure _ _)
  have hi := Nat.not_le.mp hlong
  by_cases hwidth : width ≤ room.val
  · exact ⟨hi, hwritten (padded_of_room hwidth hi)⟩
  by_cases hdigit : i = 0 ∧ width ≤ 1
  · refine ⟨hi, hwritten ?_⟩
    rw [padded_int room width hi, if_pos hdigit]
  · rw [padded_of_no_room (Int.not_le.mp hwidth) hi hdigit] at h
    exact absurd h (throw_ne_pure _ _)

/-- What is written for the integers in one width, when there is so much room. -/
structure Padding (room : Room) (width : Int) : Prop where
  written : width ≤ room.val → ∀ i : Int, i.natAbs < 10 ^ digitLimit →
    (int i).plain = pure (decimal i) ∧ ∃ s, padded room width (int i) = pure s ∧ Field width i s
  read : width ≤ digitLimit → ∀ i s, padded room width (int i) = pure s →
    Text.readInteger s = .ok i
  injective : ∀ i j s, padded room width (int i) = pure s → padded room width (int j) = pure s →
    i = j
  full : 1 ≤ width → ∀ i s, 0 ≤ i → i < 10 ^ width.toNat → padded room width (int i) = pure s →
    (s.length : Int) = width ∧ figures s = s.length
  /-- Nothing is written in a width that there is no room for, but for the digit of zero. -/
  tooWide : room.val < width → ∀ i : Int, i.natAbs < 10 ^ digitLimit → ¬(i = 0 ∧ width ≤ 1) →
    padded room width (int i) = throw (refusal width)
  tooLong : ∀ i : Int, 10 ^ digitLimit ≤ i.natAbs →
    padded room width (int i) = throw .numberTooLong

theorem padded_keeps_value (room : Room) (width : Int) : Padding room width := by
  constructor
  case written =>
    intro hwidth i hi
    exact ⟨plain_int hi, _, padded_of_room hwidth hi, field_paddedDecimal width i⟩
  case read =>
    intro hwidth i s h
    obtain ⟨hi, rfl⟩ := padded_eq_pure h
    exact (field_paddedDecimal width i).read hwidth hi
  case injective =>
    intro i j s hi hj
    obtain ⟨-, rfl⟩ := padded_eq_pure hi
    obtain ⟨-, hsame⟩ := padded_eq_pure hj
    have hspells := (field_paddedDecimal width j).spells
    rw [← hsame] at hspells
    exact (field_paddedDecimal width i).spells.unique hspells
  case full =>
    intro hwidth i s hnonneg hsmall h
    obtain ⟨-, rfl⟩ := padded_eq_pure h
    obtain ⟨n, rfl⟩ := Int.eq_ofNat_of_zero_le hnonneg
    have hfits : n < 10 ^ width.toNat := by exact_mod_cast hsmall
    have hlength := paddedDecimal_length (Int.lt_toNat.mpr hwidth) hfits
    have hfigures := (field_paddedDecimal width n).figures_eq
    have hsign : sign n = [] := if_neg (by omega)
    rw [hsign] at hfigures
    exact ⟨by omega, hfigures⟩
  case tooWide =>
    intro hwidth i hi more
    exact padded_of_no_room hwidth hi more
  case tooLong =>
    intro i hi
    exact padded_of_long room width hi

/-- A width beyond the largest text is not kept, even for a single digit, however much room there
is. -/
theorem vast_width_refused :
    Int.natAbs 5 < 10 ^ digitLimit ∧
      ∀ room, padded room (10 ^ 20) (int 5) = throw .integerTooLargeForWidth ∧
        ¬∃ s, padded room (10 ^ 20) (int 5) = pure s := by
  have hdigit : Int.natAbs 5 < 10 ^ digitLimit := by
    have hlimit : digitLimit ≠ 0 := by decide
    exact Nat.lt_of_lt_of_le (by decide) (Nat.le_self_pow hlimit 10)
  refine ⟨hdigit, fun room => ?_⟩
  have hwide : (room.val : Int) < 10 ^ 20 := by
    have hroom := room.isLt
    have hpow : Nat.pow 2 63 ≤ 10 ^ 20 := by decide
    omega
  have hrefused : padded room (10 ^ 20) (int 5) = throw .integerTooLargeForWidth :=
    padded_of_no_room hwide hdigit (by simp)
  refine ⟨hrefused, ?_⟩
  rintro ⟨s, hs⟩
  rw [hrefused] at hs
  exact throw_ne_pure _ _ hs

end

end Value

end LeveledLog
