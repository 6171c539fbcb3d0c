import LeveledLog.Proofs.Line.Unambiguous

/-!
Headers in the order of time. A header with a date shows its units from the longest to the shortest,
each of them in a width of its own. So headers stand in the order of their stamps: to the
microsecond if they show it, and else to the second.
-/

namespace LeveledLog

/-- Counting in two units. Each of the larger units starts where the one before it ends. -/
theorem count_lt_iff {f size : Nat → Nat} (next : ∀ i, f (i + 1) = f i + size i)
    {i j a b : Nat} (ha : a < size i) (hb : b < size j) :
    f i + a < f j + b ↔ i < j ∨ i = j ∧ a < b := by
  have hmono : Monotone f := monotone_nat_of_le_succ fun k => by
    rw [next]
    exact Nat.le_add_right _ _
  rcases Nat.lt_trichotomy i j with hlt | rfl | hgt
  · have hle : f i + size i ≤ f j := by
      rw [← next]
      exact hmono hlt
    omega
  · omega
  · have hle : f j + size j ≤ f i := by
      rw [← next]
      exact hmono hgt
    omega

theorem count_eq_iff {f size : Nat → Nat} (next : ∀ i, f (i + 1) = f i + size i)
    {i j a b : Nat} (ha : a < size i) (hb : b < size j) :
    f i + a = f j + b ↔ i = j ∧ a = b := by
  have hlt := count_lt_iff next ha hb
  have hgt := count_lt_iff next hb ha
  omega

namespace Stamp

/-- Days from the beginning of the year zero to that of a year. -/
def daysBefore : Nat → Nat
  | 0 => 0
  | year + 1 => daysBefore year + (monthLengths year).sum

def monthStart (year month : Nat) : Nat := ((monthLengths year).take month).sum

def dayNumber (t : Stamp) : Nat :=
  daysBefore t.year + (monthStart t.year (t.month - 1) + (t.day - 1))

def secondNumber (t : Stamp) : Nat := ((t.dayNumber * 24 + t.hour) * 60 + t.minute) * 60 + t.second

def instant (t : Stamp) : Nat := t.secondNumber * 1000000 + t.microsecond

def monthLength (t : Stamp) : Nat := (monthLengths t.year).getD (t.month - 1) 0

def OnCalendar (t : Stamp) : Prop := t.Valid ∧ t.day ≤ t.monthLength

instance (t : Stamp) : Decidable t.OnCalendar :=
  inferInstanceAs (Decidable (_ ∧ _))

def wholeSecond (t : Stamp) : Stamp := { t with microsecond := 0 }

section

variable {s t : Stamp} {i j k a b : Nat}

theorem units_lt_iff (ha : a < k) (hb : b < k) : i * k + a < j * k + b ↔ i < j ∨ i = j ∧ a < b :=
  count_lt_iff (f := (· * k)) (fun i => Nat.succ_mul i k) ha hb

theorem units_eq_iff (ha : a < k) (hb : b < k) : i * k + a = j * k + b ↔ i = j ∧ a = b :=
  count_eq_iff (f := (· * k)) (fun i => Nat.succ_mul i k) ha hb

theorem daysBefore_succ (year : Nat) :
    daysBefore (year + 1) = daysBefore year + (monthLengths year).sum := rfl

theorem monthStart_succ (year month : Nat) :
    monthStart year (month + 1) = monthStart year month + (monthLengths year).getD month 0 := by
  unfold monthStart
  rw [List.take_add_one, List.sum_append]
  cases h : (monthLengths year)[month]? <;> simp [List.getD, h]

theorem monthStart_le (year month : Nat) : monthStart year month ≤ (monthLengths year).sum := by
  have hsplit := List.sum_take_add_sum_drop (monthLengths year) month
  unfold monthStart
  omega

theorem OnCalendar.day_lt (h : t.OnCalendar) : t.day - 1 < t.monthLength := by
  obtain ⟨⟨-, -, -, -, hone, -⟩, hle⟩ := h
  omega

theorem OnCalendar.date_lt (h : t.OnCalendar) :
    monthStart t.year (t.month - 1) + (t.day - 1) < (monthLengths t.year).sum := by
  have hday := h.day_lt
  have hle := monthStart_le t.year (t.month - 1 + 1)
  rw [monthStart_succ] at hle
  unfold monthLength at hday
  omega

theorem dayNumber_lt_iff (hs : s.OnCalendar) (ht : t.OnCalendar) :
    s.dayNumber < t.dayNumber ↔ s.year < t.year ∨ s.year = t.year ∧
      (s.month < t.month ∨ s.month = t.month ∧ s.day < t.day) := by
  rw [dayNumber, dayNumber, count_lt_iff daysBefore_succ hs.date_lt ht.date_lt]
  refine or_congr_right (and_congr_right fun hyear => ?_)
  have hday := ht.day_lt
  rw [monthLength, ← hyear] at hday
  rw [← hyear, count_lt_iff (monthStart_succ s.year) hs.day_lt hday]
  obtain ⟨⟨-, -, hmonth, -, hone, -⟩, -⟩ := hs
  obtain ⟨⟨-, -, hmonth', -, hone', -⟩, -⟩ := ht
  omega

theorem dayNumber_eq_iff (hs : s.OnCalendar) (ht : t.OnCalendar) :
    s.dayNumber = t.dayNumber ↔ s.year = t.year ∧ s.month = t.month ∧ s.day = t.day := by
  have hlt := dayNumber_lt_iff hs ht
  have hgt := dayNumber_lt_iff ht hs
  omega

/-- Moments are in the order of their parts, from the years on. -/
theorem instant_lt_iff (hs : s.OnCalendar) (ht : t.OnCalendar) :
    s.instant < t.instant ↔ s.parts < t.parts := by
  have hdays := dayNumber_lt_iff hs ht
  have hsame := dayNumber_eq_iff hs ht
  obtain ⟨⟨-, -, -, -, -, -, hhour, hminute, hsecond, hmicro⟩, -⟩ := hs
  obtain ⟨⟨-, -, -, -, -, -, hhour', hminute', hsecond', hmicro'⟩, -⟩ := ht
  rw [instant, instant, secondNumber, secondNumber]
  simp (disch := omega) only [units_lt_iff, units_eq_iff, hdays, hsame]
  simp only [parts, List.cons_lt_cons_iff, or_assoc, and_assoc, and_or_left, List.lt_irrefl,
    and_false, or_false]

end

end Stamp

namespace Text

section

variable {ds es : List Nat} {r q : List Char}

theorem digitChar_lt_iff {d e : Nat} (hd : d < 10) (he : e < 10) :
    digitChar d < digitChar e ↔ d < e := by
  have hall : ∀ d < 10, ∀ e < 10, digitChar d < digitChar e ↔ d < e := by decide
  exact hall d hd e he

theorem digitChar_eq_iff {d e : Nat} (hd : d < 10) (he : e < 10) :
    digitChar d = digitChar e ↔ d = e := by
  have hall : ∀ d < 10, ∀ e < 10, digitChar d = digitChar e ↔ d = e := by decide
  exact hall d hd e he

theorem ofDigits_reverse_cons (d : Nat) (ds : List Nat) :
    Nat.ofDigits 10 (d :: ds).reverse = d * 10 ^ ds.length + Nat.ofDigits 10 ds.reverse := by
  rw [List.reverse_cons, Nat.ofDigits_append, List.length_reverse, Nat.ofDigits_singleton]
  ring

theorem ofDigits_reverse_lt (hds : ∀ d ∈ ds, d < 10) :
    Nat.ofDigits 10 ds.reverse < 10 ^ ds.length := by
  rw [← List.length_reverse]
  exact Nat.ofDigits_lt_base_pow_length (by decide) (by simpa using hds)

/-- Digits stand in the order of the numbers that they spell, if there are as many of them. -/
theorem digits_lt_iff (hlength : ds.length = es.length) (hds : ∀ d ∈ ds, d < 10)
    (hes : ∀ d ∈ es, d < 10) :
    ds.map digitChar ++ r < es.map digitChar ++ q ↔
      Nat.ofDigits 10 ds.reverse < Nat.ofDigits 10 es.reverse ∨
        Nat.ofDigits 10 ds.reverse = Nat.ofDigits 10 es.reverse ∧ r < q := by
  induction ds generalizing es with
  | nil =>
    obtain rfl := List.length_eq_zero_iff.mp hlength.symm
    simp
  | cons d ds ih =>
    cases es with
    | nil => cases hlength
    | cons e es =>
      have hrest : ds.length = es.length := Nat.succ.inj hlength
      obtain ⟨hd, hds⟩ := List.forall_mem_cons.mp hds
      obtain ⟨he, hes⟩ := List.forall_mem_cons.mp hes
      have hbound := ofDigits_reverse_lt hds
      have hbound' := ofDigits_reverse_lt hes
      rw [← hrest] at hbound'
      rw [List.map_cons, List.map_cons, List.cons_append, List.cons_append, List.cons_lt_cons_iff,
        digitChar_lt_iff hd he, digitChar_eq_iff hd he, ih hrest hds hes, ofDigits_reverse_cons,
        ofDigits_reverse_cons, ← hrest, Stamp.units_lt_iff hbound hbound',
        Stamp.units_eq_iff hbound hbound', and_or_left, or_assoc, and_assoc]

end

end Text

namespace Line

/-- The moment as far as a header with a clock shows it. -/
def shownMoment (t : Stamp) (f : Flags) : Stamp :=
  if f.has .microseconds then t else t.wholeSecond

/-- Two headers compare as two moments do. Texts compare character by character, by code point. -/
structure InOrder (f : Flags) (s t first second : Stamp) : Prop where
  earlier : header s f < header t f ↔ first.instant < second.instant
  same : header s f = header t f ↔ first = second

section

variable {width n m : Nat} {r q : List Char} {f : Flags} {s t : Stamp}

theorem part_digits (hwidth : 0 < width) (hn : n < 10 ^ width) :
    ∃ ds : List Nat, part width n = ds.map Text.digitChar ∧ ds.length = width ∧
      (∀ d ∈ ds, d < 10) ∧ Nat.ofDigits 10 ds.reverse = n := by
  have hlength := Text.paddedDecimal_length hwidth hn
  refine ⟨List.replicate (width - (Text.digits 10 n).length) 0 ++ Text.digits 10 n, ?_, ?_, ?_, ?_⟩
  · rw [part, Text.paddedDecimal_natCast, Text.natural, List.map_append, List.map_replicate,
      List.length_map]
    rfl
  · have hle := Text.digits_length_le hwidth hn
    rw [List.length_append, List.length_replicate]
    omega
  · intro d hd
    rcases List.mem_append.mp hd with hd | hd
    · rw [List.eq_of_mem_replicate hd]
      decide
    · exact Text.digits_lt hd
  · rw [List.reverse_append, List.reverse_replicate, Nat.ofDigits_append_replicate_zero,
      Text.ofDigits_digits]

/-- Fields of one width stand in the order of their numbers. -/
theorem part_lt_iff (hwidth : 0 < width) (hn : n < 10 ^ width) (hm : m < 10 ^ width) :
    part width n ++ r < part width m ++ q ↔ n < m ∨ n = m ∧ r < q := by
  obtain ⟨ds, hds, hlength, hdigits, hvalue⟩ := part_digits hwidth hn
  obtain ⟨es, hes, hlength', hdigits', hvalue'⟩ := part_digits hwidth hm
  rw [hds, hes, Text.digits_lt_iff (hlength.trans hlength'.symm) hdigits hdigits', hvalue, hvalue']

theorem header_dated (t : Stamp) (hdate : f.has .date = true)
    (hclock : (f.has .time || f.has .microseconds) = true) :
    header t f = date t ++
      (time t ++ ((if f.has .microseconds then fraction t else []) ++ [' '])) := by
  simp [header, hdate, hclock]

theorem header_lt_iff (hs : s.Valid) (ht : t.Valid) (hdate : f.has .date = true)
    (hclock : (f.has .time || f.has .microseconds) = true) :
    header s f < header t f ↔ (shownMoment s f).parts < (shownMoment t f).parts := by
  unfold Stamp.Valid at hs ht
  rw [header_dated s hdate hclock, header_dated t hdate hclock, shownMoment, shownMoment]
  cases f.has .microseconds <;>
    simp (disch := omega) only [↓reduceIte, Bool.false_eq_true, date, time, fraction,
      List.append_assoc, List.cons_append, List.nil_append, part_lt_iff, Stamp.parts,
      Stamp.wholeSecond, List.cons_lt_cons_iff, List.lt_irrefl, Char.lt_irrefl, false_or,
      true_and, and_false, or_false]

theorem header_shown (t : Stamp) (f : Flags) : header (shownMoment t f) f = header t f := by
  unfold shownMoment header
  cases f.has .microseconds <;> rfl

theorem header_eq_iff (hs : s.Valid) (ht : t.Valid) (hdate : f.has .date = true)
    (hclock : (f.has .time || f.has .microseconds) = true) :
    header s f = header t f ↔ shownMoment s f = shownMoment t f := by
  constructor
  · intro h
    have hsame := (header_split hs ht (congrArg (· ++ []) h)).1
    obtain ⟨hyear, hmonth, hday⟩ := hsame.date hdate
    obtain ⟨hhour, hminute, hsecond⟩ := hsame.time hclock
    have hfraction := hsame.fraction
    obtain ⟨⟩ := s
    obtain ⟨⟩ := t
    unfold shownMoment
    cases hm : f.has .microseconds <;> simp_all [Stamp.wholeSecond]
  · intro h
    rw [← header_shown s, h, header_shown]

theorem onCalendar_shown (h : t.OnCalendar) (f : Flags) : (shownMoment t f).OnCalendar := by
  unfold shownMoment
  split
  · exact h
  · obtain ⟨hvalid, hday⟩ := h
    refine ⟨?_, hday⟩
    unfold Stamp.Valid Stamp.wholeSecond at *
    dsimp only
    omega

theorem headers_sort_shown (hs : s.OnCalendar) (ht : t.OnCalendar) (hdate : f.has .date = true)
    (hclock : (f.has .time || f.has .microseconds) = true) :
    InOrder f s t (shownMoment s f) (shownMoment t f) := by
  constructor
  · rw [header_lt_iff hs.1 ht.1 hdate hclock,
      Stamp.instant_lt_iff (onCalendar_shown hs f) (onCalendar_shown ht f)]
  · exact header_eq_iff hs.1 ht.1 hdate hclock

/-- Headers with a date and a clock stand in the order of time. -/
theorem headers_sort_by_time (hs : s.OnCalendar) (ht : t.OnCalendar)
    (hdate : f.has .date = true) :
    (f.has .microseconds = true → InOrder f s t s t) ∧
      (f.has .time = true → f.has .microseconds = false →
        InOrder f s t s.wholeSecond t.wholeSecond) := by
  have hshown := headers_sort_shown hs ht hdate
  unfold shownMoment at hshown
  constructor
  · intro hmicroseconds
    simpa [hmicroseconds] using hshown
  · intro htime hmicroseconds
    simpa [htime, hmicroseconds] using hshown

end

/-- The last moment of a year of three digits, and the first moment of the next one. -/
theorem millennium_sorts :
    let s : Stamp := ⟨999, 12, 31, 23, 59, 59, 999999⟩
    let t : Stamp := ⟨1000, 1, 1, 0, 0, 0, 0⟩
    let f : Flags := ⟨5⟩
    let g : Flags := ⟨3⟩
    s.OnCalendar ∧ t.OnCalendar ∧ InOrder f s t s t ∧ InOrder g t s t.wholeSecond s.wholeSecond ∧
      header s f < header t f := by
  intro s t f g
  have hs : s.OnCalendar := by decide
  have ht : t.OnCalendar := by decide
  have hexact := (headers_sort_by_time (f := f) hs ht (by decide)).1 (by decide)
  have hseconds := (headers_sort_by_time (f := g) ht hs (by decide)).2 (by decide) (by decide)
  exact ⟨hs, ht, hexact, hseconds, by decide +kernel⟩

end Line

end LeveledLog
