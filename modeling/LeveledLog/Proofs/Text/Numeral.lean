import LeveledLog.Proofs.Text.Words
import LeveledLog.Text.Numeral
import Mathlib.Data.Nat.Digits.Lemmas
import Mathlib.Tactic.Ring

/-!
Decimal numbers as text. A number is worth what its digits spell, in whatever script; the digits
that are written for a number spell it again, and so do the digits with zeros in front.
-/

namespace LeveledLog.Text

/-- The number that the decimal digits of a text spell, the last of them for the ones. -/
def worth (s : List Char) : Nat := Nat.ofDigits 10 (s.filterMap decimalValue?).reverse

structure Numeral (s : List Char) : Prop where
  nonempty : s ≠ []
  decimal : ∀ c ∈ s, (decimalValue? c).isSome
  short : s.length ≤ digitLimit

/-- Digits that are not read as a number: those in front that have a place value are too many, or
there are others after them. -/
inductive Unread : List Char → NumeralError → Prop where
  | tooLong {number rest : List Char} (digits : ∀ c ∈ number ++ rest, isDigit c = true)
      (decimal : ∀ c ∈ number, (decimalValue? c).isSome)
      (ends : ∀ c ∈ rest.head?, decimalValue? c = none) (long : digitLimit < number.length) :
      Unread (number ++ rest) (.tooLong number.length)
  | noPlace {number rest : List Char} {c : Char}
      (digits : ∀ d ∈ number ++ c :: rest, isDigit d = true)
      (decimal : ∀ d ∈ number, (decimalValue? d).isSome) (ends : decimalValue? c = none)
      (short : number.length ≤ digitLimit) : Unread (number ++ c :: rest) .malformed

section

variable {n width : Nat} {i : Int} {c : Char} {s : List Char} {e : NumeralError}

theorem digits_eq_reverse (hn : n ≠ 0) : digits 10 n = (Nat.digits 10 n).reverse := by
  induction n using Nat.strongRecOn with
  | ind n ih =>
    rw [digits]
    by_cases hlt : n < 10
    · simp [hlt, Nat.digits_of_lt 10 n hn hlt]
    · have hrest := ih (n / 10) (by omega) (by omega)
      have hsplit : Nat.digits 10 n = n % 10 :: Nat.digits 10 (n / 10) :=
        Nat.digits_def' (by decide) (by omega)
      rw [if_neg (by omega), hrest, hsplit, List.reverse_cons]

@[simp]
theorem digits_zero : digits 10 0 = [0] := by
  rw [digits, if_pos (by decide)]

theorem digits_lt {d : Nat} (h : d ∈ digits 10 n) : d < 10 := by
  by_cases hn : n = 0
  · simp_all
  · rw [digits_eq_reverse hn, List.mem_reverse] at h
    exact Nat.digits_lt_base (by decide) h

theorem ofDigits_digits (n : Nat) : Nat.ofDigits 10 (digits 10 n).reverse = n := by
  by_cases hn : n = 0
  · simp [hn]
  · rw [digits_eq_reverse hn, List.reverse_reverse, Nat.ofDigits_digits]

theorem digits_length_le (hwidth : 0 < width) (h : n < 10 ^ width) :
    (digits 10 n).length ≤ width := by
  by_cases hn : n = 0
  · simp only [hn, digits_zero, List.length_singleton]
    omega
  · rw [digits_eq_reverse hn, List.length_reverse]
    exact (Nat.digits_length_le_iff (by decide) n).mpr h

theorem decimalValue_digitChar {d : Nat} (h : d < 10) : decimalValue? (digitChar d) = some d := by
  revert d
  decide

theorem natural_values (n : Nat) : (natural 10 n).filterMap decimalValue? = digits 10 n := by
  have hread : ∀ d ∈ digits 10 n, (decimalValue? ∘ digitChar) d = some d :=
    fun d hd => decimalValue_digitChar (digits_lt hd)
  rw [natural, List.filterMap_map, List.filterMap_congr hread, List.filterMap_some]

theorem natural_decimal (h : c ∈ natural 10 n) : (decimalValue? c).isSome := by
  obtain ⟨d, hd, rfl⟩ := List.mem_map.mp h
  rw [decimalValue_digitChar (digits_lt hd)]
  rfl

@[simp]
theorem worth_natural (n : Nat) : worth (natural 10 n) = n := by
  rw [worth, natural_values, ofDigits_digits]

theorem natural_injective : Function.Injective (natural 10) := by
  intro n m h
  rw [← worth_natural n, h, worth_natural]

theorem worth_zeros (k : Nat) (s : List Char) :
    worth (List.replicate k '0' ++ s) = worth s := by
  have hzero : decimalValue? '0' = some 0 := by decide
  rw [worth, List.filterMap_append, List.filterMap_replicate_of_some hzero, List.reverse_append,
    List.reverse_replicate, Nat.ofDigits_append_replicate_zero, worth]

theorem decimal_natCast (n : Nat) : decimal n = natural 10 n := by
  rw [decimal, if_neg (by omega), Int.natAbs_natCast]

theorem decimal_chars (h : c ∈ decimal i) : c = '-' ∨ (decimalValue? c).isSome := by
  unfold decimal at h
  split at h
  · rcases List.mem_cons.mp h with rfl | h
    · exact .inl rfl
    · exact .inr (natural_decimal h)
  · exact .inr (natural_decimal h)

theorem not_mem_decimal (hsign : c ≠ '-') (hdigit : decimalValue? c = none) : c ∉ decimal i := by
  intro hc
  rcases decimal_chars hc with rfl | hsome
  · exact hsign rfl
  · rw [hdigit] at hsome
    cases hsome

theorem eq_decimal_of_some (h : decimal? i = some s) : s = decimal i := by
  unfold decimal? at h
  exact (Option.some.inj (Option.ite_none_right_eq_some.mp h).2).symm

theorem decimal?_eq_none_iff : decimal? i = none ↔ 10 ^ digitLimit ≤ i.natAbs := by
  -- The bound is kept a variable, so that its power is not computed.
  unfold decimal?
  generalize digitLimit = limit
  rw [← Nat.not_lt, ite_eq_right_iff, imp_iff_not (Option.some_ne_none _)]
  rfl

theorem decimal?_of_lt (h : i.natAbs < 10 ^ digitLimit) : decimal? i = some (decimal i) := by
  -- The bound is kept a variable, so that its power is not computed.
  generalize hlimit : digitLimit = limit at h
  have hsmall : i.natAbs < Nat.pow 10 limit := h
  unfold decimal?
  rw [hlimit, if_pos hsmall]

theorem decimal?_natCast (h : n < 10 ^ digitLimit) : decimal? n = some (natural 10 n) := by
  rw [← decimal_natCast]
  apply decimal?_of_lt
  rwa [Int.natAbs_natCast]

theorem sign_not_mem_natural (n : Nat) : '-' ∉ natural 10 n :=
  fun h => absurd (natural_decimal h) (by decide)

theorem decimal_injective : Function.Injective decimal := by
  intro i j h
  unfold decimal at h
  have hi := sign_not_mem_natural i.natAbs
  have hj := sign_not_mem_natural j.natAbs
  split at h <;> split at h
  · have habs := natural_injective (List.cons.inj h).2
    omega
  · exact absurd (h ▸ List.mem_cons_self) hj
  · exact absurd (h ▸ List.mem_cons_self) hi
  · have habs := natural_injective h
    omega

theorem zeroFill_of_decimal (h : ∀ c ∈ s, (decimalValue? c).isSome) :
    zeroFill width s = List.replicate (width - s.length) '0' ++ s := by
  unfold zeroFill
  split
  · exact absurd (h '-' List.mem_cons_self) (by decide)
  · exact absurd (h '+' List.mem_cons_self) (by decide)
  · rfl

theorem paddedDecimal_natCast (width n : Nat) : paddedDecimal width n =
    List.replicate (width - (natural 10 n).length) '0' ++ natural 10 n := by
  rw [paddedDecimal, decimal_natCast, zeroFill_of_decimal fun _ => natural_decimal]

@[simp]
theorem worth_paddedDecimal (width n : Nat) : worth (paddedDecimal width n) = n := by
  rw [paddedDecimal_natCast, worth_zeros, worth_natural]

theorem paddedDecimal_length (hwidth : 0 < width) (h : n < 10 ^ width) :
    (paddedDecimal width n).length = width := by
  have hlength : (natural 10 n).length ≤ width := by
    rw [natural, List.length_map]
    exact digits_length_le hwidth h
  rw [paddedDecimal_natCast, List.length_append, List.length_replicate]
  omega

theorem zeros_apart : ∀ z ∈ decimalZeros, z + 10 ≤ 0x85 ∨ (0xa0 < z ∧ z + 10 ≤ 0x1680) ∨
    (0x1680 < z ∧ z + 10 ≤ 0x2000) ∨ 0x3000 < z := by
  decide

theorem decimal_not_blank (h : (decimalValue? c).isSome) : isNumberBlank c = false := by
  have hsmall : c.val < 0x80 ↔ c.val.toNat < 128 := Iff.rfl
  unfold decimalValue? at h
  rw [Bool.eq_false_iff]
  intro hblank
  simp only [isNumberBlank, isBlank, Bool.and_eq_true, Bool.or_eq_true, Bool.not_eq_true',
    decide_eq_true_eq, beq_iff_eq] at hblank
  by_cases hascii : c.val < 0x80
  · rw [if_pos hascii] at h
    split at h
    · omega
    · cases h
  · rw [if_neg hascii, Option.isSome_map] at h
    obtain ⟨z, hz⟩ := Option.isSome_iff_exists.mp h
    have hblock := List.find?_some hz
    have hapart := zeros_apart z (List.mem_of_find?_eq_some hz)
    simp only [decide_eq_true_eq] at hblock
    rw [hsmall] at hascii
    omega

theorem displays_apart : ∀ r ∈ displayDigits, (0xa0 < r.1 ∧ r.2 < 0x1680) ∨
    (0x1680 < r.1 ∧ r.2 < 0x2000) ∨ (0x205f < r.1 ∧ r.2 < 0x3000) ∨ 0x3000 < r.1 := by
  decide

theorem digit_not_blank (h : isDigit c = true) : isNumberBlank c = false := by
  rcases Bool.or_eq_true_iff.mp h with hdecimal | hdisplay
  · exact decimal_not_blank hdecimal
  · obtain ⟨r, hr, hrange⟩ := List.any_eq_true.mp hdisplay
    have hapart := displays_apart r hr
    rw [Bool.eq_false_iff]
    intro hblank
    simp only [isNumberBlank, isBlank, Bool.and_eq_true, Bool.or_eq_true, Bool.not_eq_true',
      decide_eq_true_eq, beq_iff_eq] at hblank hrange
    omega

theorem digit_not_mark (h : isDigit c = true) : c ≠ '-' ∧ c ≠ '+' ∧ c ≠ '_' := by
  refine ⟨?_, ?_, ?_⟩ <;>
  · rintro rfl
    exact absurd h (by decide)

theorem isDigits_iff : isDigits (String.ofList s) = true ↔ s ≠ [] ∧ ∀ c ∈ s, isDigit c = true := by
  simp [isDigits]

theorem not_isDigits_iff :
    ¬isDigits (String.ofList s) = true ↔ s = [] ∨ ∃ c ∈ s, isDigit c = false := by
  rw [isDigits_iff, not_and_or]
  simp

theorem isDigit_of_decimal (h : (decimalValue? c).isSome) : isDigit c = true := by
  rw [isDigit, h, Bool.true_or]

theorem scanDigits_run {rest : List Char} (h : ∀ c ∈ s, (decimalValue? c).isSome)
    (hends : ∀ c ∈ rest.head?, decimalValue? c = none ∧ c ≠ '_') (acc : List Nat)
    (afterDigit : Bool) (hstart : (afterDigit || acc.isEmpty) = true) :
    scanDigits (s ++ rest) acc afterDigit =
      some (acc.reverse ++ s.filterMap decimalValue?, rest) := by
  induction s generalizing acc afterDigit with
  | nil =>
    cases rest with
    | nil => simp [scanDigits, hstart]
    | cons c rest =>
      obtain ⟨hvalue, hmark⟩ := hends c rfl
      simp [scanDigits, hvalue, hmark, hstart]
  | cons c s ih =>
    obtain ⟨d, hd⟩ := Option.isSome_iff_exists.mp (h c List.mem_cons_self)
    have hrest := ih (fun e he => h e (List.mem_cons_of_mem c he)) (d :: acc) true rfl
    simp only [List.cons_append, scanDigits, hd]
    rw [hrest, List.filterMap_cons_some hd, List.reverse_cons, List.append_assoc,
      List.singleton_append]

theorem ofDigits_eq (base : Nat) (ds : List Nat) :
    ofDigits base ds = Nat.ofDigits base ds.reverse := by
  have hstep : (fun n d => n * base + d) = fun n d : Nat => d + base * n := by
    funext n d
    ring
  rw [Nat.ofDigits_eq_foldr, List.foldr_reverse, ofDigits, hstep]
  rfl

theorem values_length (h : ∀ c ∈ s, (decimalValue? c).isSome) :
    (s.filterMap decimalValue?).length = s.length :=
  List.filterMap_length_eq_length.mpr h

theorem decimalValue_lt {d : Nat} (h : decimalValue? c = some d) : d < 10 := by
  unfold decimalValue? at h
  split at h
  · split at h
    · cases h
      omega
    · cases h
  · obtain ⟨z, hz, rfl⟩ := Option.map_eq_some_iff.mp h
    have hblock := List.find?_some hz
    simp only [decide_eq_true_eq] at hblock
    omega

theorem worth_lt (h : ∀ c ∈ s, (decimalValue? c).isSome) (hlength : s.length ≤ width) :
    worth s < 10 ^ width := by
  have hdigits : ∀ d ∈ (s.filterMap decimalValue?).reverse, d < 10 := by
    intro d hd
    obtain ⟨c, -, hc⟩ := List.mem_filterMap.mp (List.mem_reverse.mp hd)
    exact decimalValue_lt hc
  have hworth := Nat.ofDigits_lt_base_pow_length (by decide) hdigits
  rw [List.length_reverse, values_length h] at hworth
  exact Nat.lt_of_lt_of_le hworth (Nat.pow_le_pow_right (by decide) hlength)

/-- The integer that is read behind a sign, or where there is none: the decimal digits in front
count, and nothing may follow them. -/
theorem readInteger_of_sign {text rest : List Char} {negative : Bool}
    (htrim : trim isNumberBlank text = text) (hsign : splitSign text = (negative, s ++ rest))
    (hs : s ++ rest ≠ []) (h : ∀ c ∈ s, (decimalValue? c).isSome)
    (hends : ∀ c ∈ rest.head?, decimalValue? c = none ∧ c ≠ '_') :
    readInteger text =
      if digitLimit < s.length then .error (.tooLong s.length)
      else if rest = [] then .ok (if negative then -(worth s : Int) else worth s)
      else .error .malformed := by
  have hscan := scanDigits_run h hends [] false rfl
  have hempty : ((s.filterMap decimalValue?).isEmpty || !rest.isEmpty) = !decide (rest = []) := by
    cases rest with
    | nil =>
      rw [List.append_nil] at hs
      have hsome : (s.filterMap decimalValue?).isEmpty = false := by
        rw [List.isEmpty_eq_false_iff, ← List.length_pos_iff, values_length h]
        exact List.length_pos_iff.mpr hs
      rw [hsome]
      rfl
    | cons c rest => simp
  unfold readInteger
  simp only [htrim, hsign, hscan, List.reverse_nil, List.nil_append, values_length h, hempty,
    ofDigits_eq]
  split
  · rfl
  · by_cases hrest : rest = [] <;> simp [hrest, worth]

/-- The integer that digits are read as: the decimal ones in front count, and nothing may follow. -/
theorem readInteger_digits {rest : List Char} (hs : s ++ rest ≠ [])
    (hdigits : ∀ c ∈ s ++ rest, isDigit c = true) (h : ∀ c ∈ s, (decimalValue? c).isSome)
    (hends : ∀ c ∈ rest.head?, decimalValue? c = none) :
    readInteger (s ++ rest) =
      if digitLimit < s.length then .error (.tooLong s.length)
      else if rest = [] then .ok (worth s) else .error .malformed := by
  have htrim : trim isNumberBlank (s ++ rest) = s ++ rest := by
    refine Stripped.eq_trim ⟨⟨[], [], by simp⟩, ?_, ?_⟩
    · intro c hc
      exact digit_not_blank (hdigits c (List.mem_of_head? hc))
    · intro c hc
      exact digit_not_blank (hdigits c (List.mem_of_getLast? hc))
  have hsign : splitSign (s ++ rest) = (false, s ++ rest) := by
    unfold splitSign
    split
    · rename_i heq
      exact absurd rfl (digit_not_mark (hdigits '-' (heq ▸ List.mem_cons_self))).1
    · rename_i heq
      exact absurd rfl (digit_not_mark (hdigits '+' (heq ▸ List.mem_cons_self))).2.1
    · rfl
  have hstop : ∀ c ∈ rest.head?, decimalValue? c = none ∧ c ≠ '_' := by
    intro c hc
    have hmem := List.mem_append_right s (List.mem_of_head? hc)
    exact ⟨hends c hc, (digit_not_mark (hdigits c hmem)).2.2⟩
  exact readInteger_of_sign htrim hsign hs h hstop

theorem readInteger_negative (hs : s ≠ []) (h : ∀ c ∈ s, (decimalValue? c).isSome) :
    readInteger ('-' :: s) =
      if digitLimit < s.length then .error (.tooLong s.length) else .ok (-(worth s : Int)) := by
  have htrim : trim isNumberBlank ('-' :: s) = '-' :: s := by
    refine Stripped.eq_trim ⟨⟨[], [], by simp⟩, ?_, ?_⟩
    · rintro c ⟨⟩
      decide
    · intro c hc
      rw [List.getLast?_cons_of_ne_nil hs] at hc
      exact decimal_not_blank (h c (List.mem_of_getLast? hc))
  have hsign : splitSign ('-' :: s) = (true, s ++ []) := by
    rw [List.append_nil]
    rfl
  have hread := readInteger_of_sign htrim hsign (by simpa using hs) h (by simp)
  rwa [if_pos rfl, if_pos rfl] at hread

/-- A run of decimal digits is read as the number that it spells, unless it is too long. -/
theorem readInteger_decimal (hs : s ≠ []) (h : ∀ c ∈ s, (decimalValue? c).isSome) :
    readInteger s =
      if digitLimit < s.length then .error (.tooLong s.length) else .ok (worth s) := by
  rw [← List.append_nil s] at hs
  have hdigits : ∀ c ∈ s ++ [], isDigit c = true := by
    intro c hc
    rw [List.append_nil] at hc
    exact isDigit_of_decimal (h c hc)
  have hread := readInteger_digits hs hdigits h (by simp)
  rwa [List.append_nil, if_pos rfl] at hread

theorem Unread.nonempty (h : Unread s e) : s ≠ [] := by
  rintro rfl
  generalize hempty : ([] : List Char) = s at h
  cases h with
  | tooLong _ _ _ long =>
    obtain ⟨rfl, -⟩ := List.append_eq_nil_iff.mp hempty.symm
    exact absurd long (Nat.not_lt_zero _)
  | noPlace => exact absurd hempty.symm (by simp)

theorem Unread.digits (h : Unread s e) : ∀ c ∈ s, isDigit c = true := by
  cases h <;> assumption

theorem Unread.readInteger_eq (h : Unread s e) : readInteger s = .error e := by
  have hnonempty := h.nonempty
  cases h with
  | tooLong digits decimal ends long =>
    rw [readInteger_digits hnonempty digits decimal ends, if_pos long]
  | noPlace digits decimal ends short =>
    rw [readInteger_digits hnonempty digits decimal (by simpa using ends),
      if_neg (Nat.not_lt.mpr short), if_neg (List.cons_ne_nil _ _)]

theorem Numeral.digits (h : Numeral s) : ∀ c ∈ s, isDigit c = true :=
  fun c hc => isDigit_of_decimal (h.decimal c hc)

theorem Numeral.readInteger_eq (h : Numeral s) : readInteger s = .ok (worth s) := by
  rw [readInteger_decimal h.nonempty h.decimal, if_neg (Nat.not_lt.mpr h.short)]

/-- A text is a number, or there is a reason why its digits are not read as one, or it has others
than digits. -/
theorem numeral_cases (s : List Char) :
    Numeral s ∨ (∃ e, Unread s e) ∨ s = [] ∨ ∃ c ∈ s, isDigit c = false := by
  by_cases hother : s = [] ∨ ∃ c ∈ s, isDigit c = false
  · exact .inr (.inr hother)
  obtain ⟨hnonempty, hall⟩ := not_or.mp hother
  have hdigits : ∀ c ∈ s, isDigit c = true := by simpa using hall
  obtain ⟨number, hsplit, hdecimal, hends⟩ :=
    split_dropWhile (fun c => (decimalValue? c).isSome) s
  generalize s.dropWhile (fun c => (decimalValue? c).isSome) = rest at hsplit hends
  subst hsplit
  by_cases hlong : digitLimit < number.length
  · refine .inr (.inl ⟨_, .tooLong hdigits hdecimal ?_ hlong⟩)
    intro c hc
    simpa using hends c hc
  · cases rest with
    | nil =>
      rw [List.append_nil] at hnonempty ⊢
      exact .inl ⟨hnonempty, hdecimal, Nat.not_lt.mp hlong⟩
    | cons c rest =>
      refine .inr (.inl ⟨_, .noPlace hdigits hdecimal ?_ (Nat.not_lt.mp hlong)⟩)
      simpa using hends c rfl

end

end LeveledLog.Text
