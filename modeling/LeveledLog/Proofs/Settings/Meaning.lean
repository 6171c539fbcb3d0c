import LeveledLog.Proofs.Flags.Meaning
import LeveledLog.Proofs.Flags.Verdicts
import LeveledLog.Proofs.Value.Looks
import LeveledLog.Settings

/-!
Settings hold no bit that has no meaning. Values of every kind are read by the same two rules for
integers and for texts, which let nothing else pass. All settings that hold no such bit can be
given.
-/

namespace LeveledLog

theorem Render.Ensures.catch {α : Type} {P : α → Prop} {r : Render α} {g : Fault → Render α}
    (h : Ensures P r) (hg : ∀ f, Ensures P (g f)) : Ensures P (tryCatch r g) := by
  intro k a
  rw [catch_run]
  rcases hr : r.run.run k with ⟨f | b, n⟩
  · exact hg f n a
  · rintro ⟨⟩
    exact h k a (congrArg Prod.fst hr)

open Render (Ensures ensures_pure ensures_throw ensures_bind)

namespace Flags

theorem accept_known {r : Except ReadError Flags} (h : ∀ f, r = .ok f → Known f)
    (setting : List Char) : Ensures Known (accept setting r) := by
  cases r with
  | ok f => exact ensures_pure (h f rfl)
  | error e => exact ensures_bind _ fun _ => ensures_throw _ _

/-- Whatever is read as header options, nothing else is read with them. -/
theorem parse_known (v : Value) : Ensures Known (parse v) := by
  unfold parse
  split
  · rename_i s _
    refine ensures_bind _ fun setting => accept_known (fun f hf => ?_) setting
    have hparsed : (parse (.text s)).outcome = .ok f := by
      rw [parse_text, accept_ok_iff, hf]
    exact Nat.lt_succ_of_le (parse_text_known hparsed)
  · rename_i i _ _
    refine accept_known (fun f hf => ?_) []
    obtain ⟨hbits, hle⟩ := readInt_ok_iff.mp hf
    have hbound : bound = 64 := rfl
    unfold Known
    omega
  · split
    · exact ensures_throw _ _
    · exact ensures_throw _ _
  · exact ensures_throw _ _

end Flags

namespace Settings

section

variable {α : Type} {P : α → Prop}

/-- If a check comes to anything, then to a value that is as it should be, or to a problem. -/
abbrev Checked {ε : Type} (P : α → Prop) (e : Except ε α) : Prop := ∀ a, e = .ok a → P a

theorem ofRender_checked (lib : Library) {r : Render α} (h : Ensures P r) :
    Ensures (Checked P) (ofRender lib r) := by
  have hfound : Ensures (Checked P) (Except.ok <$> r : Render (Except Problem α)) := by
    rw [map_eq_pure_bind]
    refine h.bind fun a ha => ensures_pure ?_
    rintro _ ⟨⟩
    exact ha
  refine hfound.catch fun f => ?_
  split
  · refine ensures_pure ?_
    rintro a ⟨⟩
  · exact ensures_throw _ _

theorem field_checked {check : Value → Render (Except Problem α)} {default : α}
    (hdefault : P default) (hcheck : ∀ v, Ensures (Checked P) (check v)) (value : Option Value)
    (name : String) : Ensures (Checked P) (field value name default check) := by
  unfold field
  split
  · refine ensures_pure ?_
    rintro a ⟨⟩
    exact hdefault
  · rename_i v
    refine (hcheck v).bind fun e he => ?_
    cases e with
    | ok a => exact ensures_pure fun a' ha => he a' (congrArg Except.ok (Except.ok.inj ha))
    | error p =>
      refine ensures_pure ?_
      rintro a ⟨⟩

end

theorem checkFlags_known (lib : Library) (v : Value) :
    Ensures (Checked Flags.Known) (checkFlags lib v) := by
  unfold checkFlags
  split
  · exact ofRender_checked lib (Flags.parse_known v)
  · refine ensures_pure ?_
    rintro f ⟨⟩

/-- Settings that are valid have options with a meaning, and nothing else. -/
theorem load_known (lib : Library) (s : Source) :
    Ensures (fun r => r.flags.Known) (load lib s) := by
  unfold load
  refine ensures_bind _ fun value => ensures_bind _ fun destination =>
    ensures_bind _ fun priority =>
    ensures_bind _ fun linePrefix => ?_
  refine (field_checked (by decide) (checkFlags_known lib) _ _).bind fun flags hflags => ?_
  refine ensures_bind _ fun address => ensures_bind _ fun ident => ?_
  split
  · exact ensures_pure (hflags _ rfl)
  · exact ensures_throw _ _

def fields (s : Settings) : List (String × Value) :=
  [("destination", s.destination.elim .none .text), ("priority", .priority s.priority),
    ("prefix", .text s.linePrefix), ("flags", .flags s.flags),
    ("syslog_address", .text s.syslogAddress), ("syslog_ident", s.syslogIdent.elim .none .text)]

theorem checkOptionalText_elim (text : Option String) :
    checkOptionalText .standard (text.elim .none .text) = pure (.ok text) := by
  cases text <;> rfl

theorem checkPriority_self (p : Priority) :
    checkPriority .standard (.priority p) = pure (.ok p) := by
  cases p <;> rfl

theorem checkFlags_self {f : Flags} (known : f.Known) :
    checkFlags .standard (.flags f) = pure (.ok f) := by
  have hread : Flags.readInt f.bits = .ok f := by
    rw [Flags.readInt, if_pos ⟨Int.natCast_nonneg _, Int.ofNat_lt.mpr known⟩]
    rfl
  have hcheck : checkFlags .standard (.flags f) =
      ofRender .standard (Flags.accept [] (Flags.readInt f.bits)) := rfl
  rw [hcheck, hread]
  rfl

theorem field_given {α : Type} {value : Option Value} {v : Value} {a : α}
    {check : Value → Render (Except Problem α)} (given : value = some v)
    (h : check v = pure (.ok a)) (name : String) (default : α) :
    field value name default check = pure (.ok a) := by
  unfold field
  rw [given]
  dsimp only
  rw [h]
  rfl

/-- Whatever the environment holds, settings that are given by name are the settings. -/
theorem load_fields {s : Settings} (known : s.flags.Known) (environment : List (String × String)) :
    load .standard ⟨s.fields, environment⟩ = pure s := by
  let value := Source.value? ⟨s.fields, environment⟩ Lookup.standard
  have hvalues : (ofExcept (Library.standard.values ⟨s.fields, environment⟩) :
      Render (String → Option Value)) = pure value := rfl
  have hdestination : field (value "destination") "destination" none
      (checkOptionalText .standard) = pure (.ok s.destination) :=
    field_given rfl (checkOptionalText_elim _) _ _
  have hpriority : field (value "priority") "priority" Priority.none (checkPriority .standard) =
      pure (.ok s.priority) := field_given rfl (checkPriority_self _) _ _
  have hline : field (value "prefix") "prefix" "" (checkText .standard) =
      pure (.ok s.linePrefix) := field_given rfl rfl _ _
  have hflags : field (value "flags") "flags" Flags.standard (checkFlags .standard) =
      pure (.ok s.flags) := field_given rfl (checkFlags_self known) _ _
  have haddress : field (value "syslog_address") "syslog_address" defaultAddress
      (checkText .standard) = pure (.ok s.syslogAddress) := field_given rfl rfl _ _
  have hident : field (value "syslog_ident") "syslog_ident" none (checkOptionalText .standard) =
      pure (.ok s.syslogIdent) := field_given rfl (checkOptionalText_elim _) _ _
  unfold load
  rw [hvalues, pure_bind, hdestination, pure_bind, hpriority, pure_bind, hline, pure_bind,
    hflags, pure_bind, haddress, pure_bind, hident, pure_bind]

end Settings

end LeveledLog
