import LeveledLog.Flags.OfValue
import LeveledLog.Proofs.Text.Numeral
import Mathlib.Data.List.Forall2

/-!
What a setting of header options may say. It is a number of decimal digits in any script, or words
between bars, commas and blanks, each of them the name of an option in any case. A number stands for
its bits, words for all that they name together, and the first word without a meaning is reported.
Digits that have no place value, and numbers of too many digits, are left out.
-/

namespace LeveledLog.Flags

open Text (Words Stripped worth)

inductive Names (w : List Char) : Flags → Prop where
  | option (o : HeaderOption) (upper : String.ofList (Text.upper w) = o.name) : Names w (single o)
  | standard (upper : String.ofList (Text.upper w) = "STD") : Names w standard

def Named (w : List Char) : Prop := ∃ f, Names w f

def unknownName (s : String) (w : List Char) : Fault :=
  .badSetting "flags" ("Invalid format flag: " ++ String.ofList w) (some s)

def unknownNumber (digits : List Char) : Fault :=
  .badSetting "flags" ("Invalid format flags: " ++ String.ofList digits)
    (some (String.ofList digits))

structure ReadsInteger (n : Int) : Prop where
  accepted : ∀ f, (parse (.int n)).outcome = .ok f ↔ (f.bits : Int) = n ∧ n ≤ 63
  /-- Every bit of an accepted integer belongs to an option. -/
  bits : 0 ≤ n → (n ≤ 63 ↔ ∀ i, n.toNat.testBit i = true → ∃ o : HeaderOption, o.bit = i)
  refused : ∀ digits, ¬(0 ≤ n ∧ n ≤ 63) → Text.decimal? n = some digits →
    (parse (.int n)).outcome = .error (unknownNumber digits)

structure ReadsNumber (s : String) (t : List Char) : Prop where
  same : parse (.text s) = parse (.int (worth t))
  accepted : ∀ f, (parse (.text s)).outcome = .ok f ↔ f.bits = worth t ∧ worth t ≤ 63
  refused : 63 < worth t →
    (parse (.text s)).outcome = .error (unknownNumber (Text.natural 10 (worth t)))

structure ReadsNames (s : String) (words : List (List Char)) : Prop where
  accepted : (∃ f, (parse (.text s)).outcome = .ok f) ↔ ∀ w ∈ words, Named w
  value : ∀ fs, List.Forall₂ Names words fs →
    (parse (.text s)).outcome = .ok ⟨(fs.map Flags.bits).foldr (· ||| ·) 0⟩
  /-- Only what is named counts, and not the order, the spelling or the number of its names. -/
  options : ∀ f, (parse (.text s)).outcome = .ok f → f.bits ≤ 63 ∧
    ∀ o, f.has o = true ↔ ∃ w ∈ words, ∃ g, Names w g ∧ g.has o = true
  refused : (¬∀ w ∈ words, Named w) → ∃ before w after, words = before ++ w :: after ∧
    (∀ b ∈ before, Named b) ∧ ¬Named w ∧ (parse (.text s)).outcome = .error (unknownName s w)

section

variable {w : List Char} {words : List (List Char)} {f : Flags} {fs : List Flags} {n : Int}
  {s : String} {t : List Char}

theorem names_iff : Names w f ↔ ofName? w = some f := by
  constructor
  · intro h
    cases h with
    | option o upper => cases o <;> rw [ofName?, upper] <;> rfl
    | standard upper =>
      rw [ofName?, upper]
      rfl
  · intro h
    obtain ⟨before, after, hnamed, -⟩ := List.lookup_eq_some_iff.mp h
    have hmem : (String.ofList (Text.upper w), f) ∈ named := by simp [hnamed]
    rcases List.mem_append.mp hmem with hoption | hstandard
    · obtain ⟨o, -, heq⟩ := List.mem_map.mp hoption
      obtain ⟨hname, rfl⟩ := Prod.mk.inj heq
      exact .option o hname.symm
    · obtain ⟨hname, rfl⟩ := Prod.mk.inj (List.mem_singleton.mp hstandard)
      exact .standard hname

theorem Names.bits_le (h : Names w f) : f.bits ≤ 63 := by
  cases h with
  | option o => cases o <;> decide
  | standard => decide

theorem readInt_ok_iff : readInt n = .ok f ↔ (f.bits : Int) = n ∧ n ≤ 63 := by
  unfold readInt bound
  by_cases hin : 0 ≤ n ∧ n < (64 : Nat)
  · rw [if_pos hin, Except.ok.injEq]
    constructor
    · rintro rfl
      dsimp only
      omega
    · rintro ⟨hbits, -⟩
      rw [← hbits, Int.toNat_natCast]
  · rw [if_neg hin]
    constructor
    · rintro ⟨⟩
    · rintro ⟨hbits, hle⟩
      omega

theorem readInt_error (h : ¬(0 ≤ n ∧ n ≤ 63)) : readInt n = .error (.outOfRange n) := by
  unfold readInt bound
  rw [if_neg (by omega)]

/-- The options have the bits below the bound, one each. -/
theorem bits_of_options (m : Nat) :
    m ≤ 63 ↔ ∀ i, m.testBit i = true → ∃ o : HeaderOption, o.bit = i := by
  have hoption : ∀ i, i < 6 ↔ ∃ o : HeaderOption, o.bit = i := by
    intro i
    constructor
    · intro hi
      interval_cases i
      exacts [⟨.date, rfl⟩, ⟨.time, rfl⟩, ⟨.microseconds, rfl⟩, ⟨.longFile, rfl⟩,
        ⟨.shortFile, rfl⟩, ⟨.syslog, rfl⟩]
    · rintro ⟨o, rfl⟩
      cases o <;> decide
  constructor
  · intro hm i hi
    rw [← hoption]
    by_contra hlarge
    have hpow : 2 ^ 6 ≤ 2 ^ i := Nat.pow_le_pow_right (by decide) (by omega)
    rw [Nat.testBit_lt_two_pow (by omega)] at hi
    cases hi
  · intro hbits
    have hlt : m < 2 ^ 6 := by
      refine Nat.lt_pow_two_of_testBit m fun i hi => ?_
      by_contra hset
      have hsmall := (hoption i).mpr (hbits i (by simpa using hset))
      omega
    omega

theorem ofNames_named (setting : String) (h : List.Forall₂ Names words fs) :
    ofNames setting words = .ok ⟨(fs.map Flags.bits).foldr (· ||| ·) 0⟩ := by
  induction h with
  | nil => rfl
  | cons hw _ ih =>
    rw [ofNames, names_iff.mp hw]
    dsimp only
    rw [ih]
    rfl

theorem not_named_iff : ¬Named w ↔ ofName? w = none := by
  rw [Option.eq_none_iff_forall_ne_some]
  constructor
  · intro h f hf
    exact h ⟨f, names_iff.mpr hf⟩
  · rintro h ⟨f, hf⟩
    exact h f (names_iff.mp hf)

theorem ofNames_unnamed (setting : String) {before after : List (List Char)}
    (hbefore : ∀ b ∈ before, Named b) (hw : ¬Named w) :
    ofNames setting (before ++ w :: after) = .error (.unknownName (String.ofList w) setting) := by
  induction before with
  | nil => rw [List.nil_append, ofNames, not_named_iff.mp hw]
  | cons b before ih =>
    obtain ⟨f, hf⟩ := hbefore b List.mem_cons_self
    have hrest := ih fun c hc => hbefore c (List.mem_cons_of_mem b hc)
    rw [List.cons_append, ofNames, names_iff.mp hf]
    dsimp only
    rw [hrest]
    rfl

theorem named_or_not (words : List (List Char)) :
    (∃ fs, List.Forall₂ Names words fs) ∨ ∃ before w after, words = before ++ w :: after ∧
      (∀ b ∈ before, Named b) ∧ ¬Named w := by
  induction words with
  | nil => exact .inl ⟨[], .nil⟩
  | cons w words ih =>
    by_cases hw : Named w
    · obtain ⟨f, hf⟩ := hw
      rcases ih with ⟨fs, hfs⟩ | ⟨before, v, after, rfl, hbefore, hv⟩
      · exact .inl ⟨f :: fs, .cons hf hfs⟩
      · refine .inr ⟨w :: before, v, after, rfl, ?_, hv⟩
        intro b hb
        rcases List.mem_cons.mp hb with rfl | hb
        · exact ⟨f, hf⟩
        · exact hbefore b hb
    · exact .inr ⟨[], w, words, rfl, by simp, hw⟩

theorem parse_text (s : String) : parse (.text s) = accept s.toList (read s) := by
  have hplain : (Value.text s).plain = pure s.toList := rfl
  unfold parse
  simp only [Value.text?, hplain, pure_bind]

theorem parse_text_names (h : t = [] ∨ ∃ c ∈ t, Text.isDigit c = false)
    (ht : Stripped Text.isBlank s.toList t) (hwords : Words isSeparator t words) :
    parse (.text s) = accept s.toList (ofNames s words) := by
  have hno := Text.not_isDigits_iff.mpr h
  have hread : read s = ofNames s words := by
    unfold read
    dsimp only
    rw [Text.strip, ht.eq_trim, if_neg hno, hwords.eq_words]
  rw [parse_text, hread]

theorem parse_int (n : Int) : parse (.int n) = accept [] (readInt n) := rfl

theorem accept_unknown (s : String) (w : List Char) (written : String) :
    (accept s.toList (.error (.unknownName (String.ofList w) written))).outcome =
      .error (unknownName s w) := by
  unfold unknownName
  nth_rewrite 2 [← String.ofList_toList (s := s)]
  rfl

theorem accept_outOfRange (setting : List Char) (n : Int) :
    accept setting (.error (.outOfRange n)) =
      throw ((Text.decimal? n).elim Fault.numberTooLong unknownNumber) := by
  have htext : Value.integerText n =
      (Text.decimal? n).elim (throw .numberTooLong) fun digits => pure digits := by
    unfold Value.integerText
    split <;> simp_all only [Option.elim]
  unfold accept
  dsimp only
  unfold ReadError.toFault
  dsimp only
  rw [htext]
  generalize Text.decimal? n = digits
  cases digits <;> rfl

theorem accept_range (setting : List Char) (n : Int) :
    (accept setting (.error (.outOfRange n))).outcome =
      .error ((Text.decimal? n).elim Fault.numberTooLong unknownNumber) := by
  rw [accept_outOfRange]
  rfl

theorem accept_badNumber (setting : List Char) (digits : String) (e : Text.NumeralError) :
    (accept setting (.error (.badNumber digits e))).outcome =
      .error (Fault.ofNumeral (Text.quote digits.toList) e) := rfl

/-- Whatever a setting is refused with is a wrong value. -/
theorem accept_error (setting : List Char) (e : ReadError) :
    ∃ fault, accept setting (.error e) = throw fault ∧ fault.isWrongValue = true := by
  cases e with
  | unknownName name written => exact ⟨_, rfl, rfl⟩
  | outOfRange n =>
    refine ⟨_, accept_outOfRange setting n, ?_⟩
    generalize Text.decimal? n = digits
    cases digits <;> rfl
  | badNumber digits cause =>
    refine ⟨_, rfl, ?_⟩
    cases cause <;> rfl

theorem accept_ok_iff {setting : List Char} {r : Except ReadError Flags} :
    (accept setting r).outcome = .ok f ↔ r = .ok f := by
  cases r with
  | ok g =>
    have houtcome : (accept setting (.ok g)).outcome = .ok g := rfl
    rw [houtcome, Except.ok.injEq, Except.ok.injEq]
  | error e =>
    obtain ⟨fault, hfault, -⟩ := accept_error setting e
    rw [hfault]
    constructor <;> rintro ⟨⟩

/-- What an integer out of range is refused with does not depend on how it was written. -/
theorem parse_text_number (ht : Stripped Text.isBlank s.toList t) (hnonempty : t ≠ [])
    (hdecimal : ∀ c ∈ t, (Text.decimalValue? c).isSome) (hlength : t.length ≤ Text.digitLimit) :
    parse (.text s) = parse (.int (worth t)) := by
  have hyes := Text.isDigits_iff.mpr
    ⟨hnonempty, fun c hc => Text.isDigit_of_decimal (hdecimal c hc)⟩
  have hread : read s = readInt (worth t) := by
    unfold read
    dsimp only
    rw [Text.strip, ht.eq_trim, if_pos hyes, Text.readInteger_decimal hnonempty hdecimal,
      if_neg (Nat.not_lt.mpr hlength)]
  rw [parse_text, hread, parse_int]
  unfold readInt
  split <;> rfl

theorem reads_integer (n : Int) : ReadsInteger n := by
  constructor
  · intro f
    rw [parse_int, accept_ok_iff, readInt_ok_iff]
  · intro hn
    rw [← bits_of_options]
    omega
  · intro digits hout hdigits
    rw [parse_int, readInt_error hout, accept_range, hdigits]
    rfl

theorem reads_number (ht : Stripped Text.isBlank s.toList t) (hnonempty : t ≠ [])
    (hdecimal : ∀ c ∈ t, (Text.decimalValue? c).isSome) (hlength : t.length ≤ Text.digitLimit) :
    ReadsNumber s t := by
  have hsame := parse_text_number ht hnonempty hdecimal hlength
  have hinteger := reads_integer (worth t)
  refine ⟨hsame, ?_, ?_⟩
  · intro f
    rw [hsame, hinteger.accepted]
    omega
  · intro hlarge
    rw [hsame]
    refine hinteger.refused _ (by omega) ?_
    rw [Text.decimal?_natCast (Text.worth_lt hdecimal hlength)]

theorem Names.unique {g : Flags} (hf : Names w f) (hg : Names w g) : f = g :=
  Option.some.inj ((names_iff.mp hf).symm.trans (names_iff.mp hg))

theorem forall_named_iff : (∀ w ∈ words, Named w) ↔ ∃ fs, List.Forall₂ Names words fs := by
  induction words with
  | nil => simp
  | cons w words ih =>
    simp only [List.forall_mem_cons, ih, List.forall₂_cons_left_iff]
    constructor
    · rintro ⟨⟨f, hf⟩, fs, hfs⟩
      exact ⟨f :: fs, f, fs, hf, hfs, rfl⟩
    · rintro ⟨-, f, fs, hf, hfs, -⟩
      exact ⟨⟨f, hf⟩, fs, hfs⟩

theorem together_named (h : List.Forall₂ Names words fs) :
    (fs.map Flags.bits).foldr (· ||| ·) 0 ≤ 63 ∧
      ∀ o, has ⟨(fs.map Flags.bits).foldr (· ||| ·) 0⟩ o = true ↔
        ∃ w ∈ words, ∃ g, Names w g ∧ g.has o = true := by
  induction h with
  | nil => simp [has]
  | @cons w f words fs hw _ ih =>
    obtain ⟨hbound, hmembers⟩ := ih
    rw [List.map_cons, List.foldr_cons]
    constructor
    · have hfirst : f.bits < 2 ^ 6 := Nat.lt_succ_of_le hw.bits_le
      have hrest : (fs.map Flags.bits).foldr (· ||| ·) 0 < 2 ^ 6 := Nat.lt_succ_of_le hbound
      exact Nat.le_of_lt_succ (Nat.or_lt_two_pow hfirst hrest)
    · intro o
      have hword : f.has o = true ↔ ∃ g, Names w g ∧ g.has o = true := by
        constructor
        · intro hf
          exact ⟨f, hw, hf⟩
        · rintro ⟨g, hg, ho⟩
          rwa [hw.unique hg]
      have hunion : has ⟨f.bits ||| (fs.map Flags.bits).foldr (· ||| ·) 0⟩ o =
          (f.has o || has ⟨(fs.map Flags.bits).foldr (· ||| ·) 0⟩ o) := Nat.testBit_or ..
      rw [hunion, Bool.or_eq_true, hmembers, hword]
      simp only [List.exists_mem_cons_iff]

theorem reads_names (h : t = [] ∨ ∃ c ∈ t, Text.isDigit c = false)
    (ht : Stripped Text.isBlank s.toList t) (hwords : Words isSeparator t words) :
    ReadsNames s words := by
  have hparse := parse_text_names h ht hwords
  have hvalue : ∀ fs, List.Forall₂ Names words fs →
      (parse (.text s)).outcome = .ok ⟨(fs.map Flags.bits).foldr (· ||| ·) 0⟩ := by
    intro fs hfs
    rw [hparse, accept_ok_iff]
    exact ofNames_named s hfs
  have hrefused : ∀ before w after, words = before ++ w :: after → (∀ b ∈ before, Named b) →
      ¬Named w → (parse (.text s)).outcome = .error (unknownName s w) := by
    rintro before w after rfl hbefore hw
    rw [hparse, ofNames_unnamed s hbefore hw, accept_unknown]
  have haccepted : (∃ f, (parse (.text s)).outcome = .ok f) ↔ ∀ w ∈ words, Named w := by
    constructor
    · rintro ⟨f, hf⟩
      rcases named_or_not words with ⟨fs, hfs⟩ | ⟨before, w, after, heq, hbefore, hw⟩
      · exact forall_named_iff.mpr ⟨fs, hfs⟩
      · rw [hrefused before w after heq hbefore hw] at hf
        cases hf
    · intro hnamed
      obtain ⟨fs, hfs⟩ := forall_named_iff.mp hnamed
      exact ⟨_, hvalue fs hfs⟩
  refine ⟨haccepted, hvalue, ?_, ?_⟩
  · intro f hf
    obtain ⟨fs, hfs⟩ := forall_named_iff.mp (haccepted.mp ⟨f, hf⟩)
    rw [hvalue fs hfs] at hf
    obtain rfl := Except.ok.inj hf
    exact together_named hfs
  · intro hunnamed
    rcases named_or_not words with ⟨fs, hfs⟩ | ⟨before, w, after, heq, hbefore, hw⟩
    · exact absurd (forall_named_iff.mpr ⟨fs, hfs⟩) hunnamed
    · exact ⟨before, w, after, heq, hbefore, hw, hrefused before w after heq hbefore hw⟩

/-- A setting is read as its text, without the blanks around it, is to be read. -/
theorem settings_read_by_grammar (s : String) (n : Int) :
    ReadsInteger n ∧ ∃ t, Stripped Text.isBlank s.toList t ∧
      (t ≠ [] → (∀ c ∈ t, (Text.decimalValue? c).isSome) → t.length ≤ Text.digitLimit →
        ReadsNumber s t) ∧
      ((t = [] ∨ ∃ c ∈ t, Text.isDigit c = false) →
        ∃ words, Words isSeparator t words ∧ ReadsNames s words) := by
  have hstripped : Stripped Text.isBlank s.toList (Text.strip s.toList) :=
    Text.stripped_iff.mpr rfl
  refine ⟨reads_integer n, _, hstripped, reads_number hstripped, ?_⟩
  intro hnames
  have hwords := Text.words_iff.mpr (Eq.refl (Text.words isSeparator (Text.strip s.toList)))
  exact ⟨_, hwords, reads_names hnames hstripped hwords⟩

/-- The long s has the upper case form of the short one. -/
example : (parse (.text " date,| STD\tſhort_file ")).outcome = .ok ⟨19⟩ := by rfl

end

end LeveledLog.Flags
