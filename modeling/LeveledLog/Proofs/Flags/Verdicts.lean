import LeveledLog.Error
import LeveledLog.Proofs.Flags.Grammar

/-!
What reading a setting of header options comes to. It is a set of options, or an error that tells
which setting is wrong. What only looks like a number comes to neither: digits without a place
value, and more digits than are read or written, end in a fault that no setting is named by.
-/

namespace LeveledLog.Flags

open Text (Stripped)

/-- Options that all have a meaning, or the error of the setting that should have named them. -/
inductive Concludes : Except Fault Flags → Prop where
  | accepted {f : Flags} (known : f.bits ≤ 63) : Concludes (.ok f)
  | refused {fault : Fault} {e : RaisedError} (error : fault.raised? = some e)
      (kind : e.kind = .config) (code : e.code = ⟨"LVLOG_CONFIG_ERROR", ErrorClass.ownCategory⟩)
      (key : Value.lookup (.text "config_key") e.context = some (.text "flags")) :
      Concludes (.error fault)

/-- A wrong value, for which there is no error that a handler of errors could know. -/
structure Escapes (r : Except Fault Flags) (fault : Fault) : Prop where
  outcome : r = .error fault
  kind : fault.kind = .wrongValue
  foreign : fault.raised? = none

section

variable {r : Except Fault Flags} {fault : Fault} {s : String} {t : List Char}
  {e : Text.NumeralError}

theorem Escapes.not_concludes (h : Escapes r fault) : ¬Concludes r := by
  intro hconcludes
  rw [h.outcome] at hconcludes
  cases hconcludes with
  | refused error =>
    rw [h.foreign] at error
    cases error

theorem concludes_of_accepted {f : Flags} (h : r = .ok f) (known : f.bits ≤ 63) :
    Concludes r := by
  rw [h]
  exact .accepted known

theorem concludes_of_badSetting {message : String} {shown : Option String}
    (h : r = .error (.badSetting "flags" message shown)) : Concludes r := by
  rw [h]
  cases shown <;> exact .refused rfl rfl rfl rfl

theorem parse_int_verdict (n : Int) :
    (n.natAbs < 10 ^ Text.digitLimit ∧ Concludes (parse (.int n)).outcome) ∨
      (10 ^ Text.digitLimit ≤ n.natAbs ∧ Escapes (parse (.int n)).outcome .numberTooLong) := by
  by_cases hknown : 0 ≤ n ∧ n ≤ 63
  · have hsmall : n.natAbs < 10 ^ Text.digitLimit := by
      have hpow : 10 ^ 2 ≤ 10 ^ Text.digitLimit := Nat.pow_le_pow_right (by decide) (by decide)
      omega
    have haccepted : (parse (.int n)).outcome = .ok ⟨n.toNat⟩ := by
      refine ((reads_integer n).accepted _).mpr ⟨?_, hknown.2⟩
      exact Int.toNat_of_nonneg hknown.1
    refine .inl ⟨hsmall, concludes_of_accepted haccepted ?_⟩
    dsimp only
    omega
  · cases hdigits : Text.decimal? n with
    | some digits =>
      have hsmall : ¬10 ^ Text.digitLimit ≤ n.natAbs := by
        rw [← Text.decimal?_eq_none_iff, hdigits]
        exact Option.some_ne_none digits
      have hrefused := (reads_integer n).refused digits hknown hdigits
      exact .inl ⟨Nat.not_le.mp hsmall, concludes_of_badSetting hrefused⟩
    | none =>
      have hlong := Text.decimal?_eq_none_iff.mp hdigits
      refine .inr ⟨hlong, ?_, rfl, rfl⟩
      rw [parse_int, readInt_error hknown, accept_range, hdigits]
      rfl

theorem parse_names_concludes (h : t = [] ∨ ∃ c ∈ t, Text.isDigit c = false)
    (ht : Stripped Text.isBlank s.toList t) : Concludes (parse (.text s)).outcome := by
  have hwords := Text.words_iff.mpr (Eq.refl (Text.words isSeparator t))
  have hreads := reads_names h ht hwords
  by_cases hnamed : ∀ w ∈ Text.words isSeparator t, Named w
  · obtain ⟨f, hf⟩ := hreads.accepted.mpr hnamed
    exact concludes_of_accepted hf (hreads.options f hf).1
  · obtain ⟨-, w, -, -, -, -, hrefused⟩ := hreads.refused hnamed
    exact concludes_of_badSetting hrefused

theorem escapes_numeral (shown : List Char) (e : Text.NumeralError) :
    Escapes (.error (Fault.ofNumeral shown e)) (Fault.ofNumeral shown e) := by
  cases e <;> exact ⟨rfl, rfl, rfl⟩

theorem parse_unread_escapes (h : Text.Unread t e) (ht : Stripped Text.isBlank s.toList t) :
    Escapes (parse (.text s)).outcome (Fault.ofNumeral (Text.quote t) e) := by
  have hdigits := Text.isDigits_iff.mpr ⟨h.nonempty, h.digits⟩
  have hsetting : read s = .error (.badNumber (String.ofList t) e) := by
    unfold read
    dsimp only
    rw [Text.strip, ht.eq_trim, if_pos hdigits, h.readInteger_eq]
  rw [parse_text, hsetting, accept_badNumber, String.toList_ofList]
  exact escapes_numeral _ e

/-- Whatever is not unread is a number, or it is names. -/
theorem parse_text_concludes (ht : Stripped Text.isBlank s.toList t)
    (hread : ∀ e, ¬Text.Unread t e) : Concludes (parse (.text s)).outcome := by
  rcases Text.numeral_cases t with hnumeral | ⟨e, hunread⟩ | hnames
  · rw [parse_text_number ht hnumeral.nonempty hnumeral.decimal hnumeral.short]
    rcases parse_int_verdict (Text.worth t) with ⟨-, hconcludes⟩ | ⟨hlong, -⟩
    · exact hconcludes
    · exact absurd (Text.worth_lt hnumeral.decimal hnumeral.short) (Nat.not_lt.mpr hlong)
  · exact absurd hunread (hread e)
  · exact parse_names_concludes hnames ht

theorem parse_text_known {f : Flags} (h : (parse (.text s)).outcome = .ok f) : f.bits ≤ 63 := by
  have hstripped : Stripped Text.isBlank s.toList (Text.strip s.toList) := Text.stripped_iff.mpr rfl
  by_cases hread : ∀ e, ¬Text.Unread (Text.strip s.toList) e
  · have hconcludes := parse_text_concludes hstripped hread
    rw [h] at hconcludes
    cases hconcludes with
    | accepted known => exact known
  · obtain ⟨e, hunread⟩ := not_forall_not.mp hread
    rw [(parse_unread_escapes hunread hstripped).outcome] at h
    cases h

/-- Reading a setting concludes, unless it is digits that are not read as a number. Reading an
integer concludes, unless it has too many digits to be written. -/
theorem settings_conclude (s : String) (n : Int) :
    (∃ t, Stripped Text.isBlank s.toList t ∧
      (Concludes (parse (.text s)).outcome ↔ ∀ e, ¬Text.Unread t e) ∧
      ∀ e, Text.Unread t e →
        Escapes (parse (.text s)).outcome (Fault.ofNumeral (Text.quote t) e)) ∧
    (Concludes (parse (.int n)).outcome ↔ n.natAbs < 10 ^ Text.digitLimit) ∧
    (10 ^ Text.digitLimit ≤ n.natAbs → Escapes (parse (.int n)).outcome .numberTooLong) := by
  refine ⟨⟨Text.strip s.toList, Text.stripped_iff.mpr rfl, ?_, ?_⟩, ?_, ?_⟩
  · constructor
    · intro hconcludes e hunread
      exact (parse_unread_escapes hunread (Text.stripped_iff.mpr rfl)).not_concludes hconcludes
    · exact parse_text_concludes (Text.stripped_iff.mpr rfl)
  · intro e hunread
    exact parse_unread_escapes hunread (Text.stripped_iff.mpr rfl)
  · rcases parse_int_verdict n with ⟨hsmall, hconcludes⟩ | ⟨hlong, hescapes⟩
    · exact iff_of_true hconcludes hsmall
    · exact iff_of_false hescapes.not_concludes (Nat.not_lt.mpr hlong)
  · intro hlong
    rcases parse_int_verdict n with ⟨hsmall, -⟩ | ⟨-, hescapes⟩
    · exact absurd hsmall (Nat.not_lt.mpr hlong)
    · exact hescapes

theorem superscript_escapes :
    (parse (.text "²")).outcome = .error (.badNumeral "'²'") ∧
      ¬Concludes (parse (.text "²")).outcome := by
  have houtcome : (parse (.text "²")).outcome = .error (.badNumeral "'²'") := by rfl
  have hescapes : Escapes (parse (.text "²")).outcome (.badNumeral "'²'") := ⟨houtcome, rfl, rfl⟩
  exact ⟨houtcome, hescapes.not_concludes⟩

end

end LeveledLog.Flags
