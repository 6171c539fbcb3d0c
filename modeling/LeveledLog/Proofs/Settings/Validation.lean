import LeveledLog.Proofs.Settings.Fields

/-!
Settings from texts. A text is given by name or set in the environment under any spelling of the
field's variable, and it makes no difference which. Only the priority and the header options can be
refused. Then every refused field is reported, in the order of the fields.
-/

namespace LeveledLog.Settings

def Means {α : Type} (reads : String → α → Prop) (default : α) (given : Option String) (a : α) :
    Prop :=
  given.elim (a = default) fun s => reads s a

structure Reads (t : Field → Option String) (r : Settings) : Prop where
  destination : r.destination = t .destination
  priority : Means Priority.Reads .none (t .priority) r.priority
  linePrefix : r.linePrefix = (t .linePrefix).getD ""
  flags : Means Flags.Reads .standard (t .flags) r.flags
  syslogAddress : r.syslogAddress = (t .syslogAddress).getD defaultAddress
  syslogIdent : r.syslogIdent = t .syslogIdent

inductive Entries (t : Field → Option String) : List Field → List FieldProblem → Prop where
  | done : Entries t [] []
  | valid {f : Field} {fs : List Field} {ps : List FieldProblem}
      (accepted : ∀ s, t f = some s → f.Accepts s) (more : Entries t fs ps) :
      Entries t (f :: fs) ps
  | invalid {f : Field} {s : String} {p : FieldProblem} {fs : List Field} {ps : List FieldProblem}
      (given : t f = some s) (refused : f.Refuses s p) (more : Entries t fs ps) :
      Entries t (f :: fs) (p :: ps)

structure Validated (t : Field → Option String) (outcome : Except Fault Settings) : Prop where
  read : ∀ r, outcome = .ok r ↔ Reads t r
  known : ∀ r, outcome = .ok r → r.flags.bits ≤ 63
  succeeds : (∃ r, outcome = .ok r) ↔ ∀ f s, t f = some s → f.Accepts s
  refused : ∀ fault, outcome = .error fault →
    ∃ problems, fault = .invalidSettings problems ∧ Entries t Field.all problems

def together (t : Field → Option String) (priority : Except FieldProblem Priority)
    (flags : Except FieldProblem Flags) : Render Settings :=
  match priority, flags with
  | .ok p, .ok f =>
    pure ⟨t .destination, p, (t .linePrefix).getD "", f,
      (t .syslogAddress).getD defaultAddress, t .syslogIdent⟩
  | _, _ => throw (.invalidSettings (problemOf priority ++ problemOf flags))

inductive Settled {α : Type} (reads : String → α → Prop) (default : α) (f : Field)
    (given : Option String) : Except FieldProblem α → Prop where
  | read {a : α} (means : Means reads default given a) : Settled reads default f given (.ok a)
  | refused {x : String} {p : FieldProblem} (isGiven : given = some x) (refuses : f.Refuses x p) :
      Settled reads default f given (.error p)

section

variable {s : Source} {f : Field}

theorem toLower_eq (c : Char) :
    (if 'A' ≤ c ∧ c ≤ 'Z' then Char.ofNat (c.toNat + 32) else c) = c.toLower := by
  have hcapital : 'A' ≤ c ∧ c ≤ 'Z' ↔ c.val ≥ 'A'.val ∧ c.val ≤ 'Z'.val := Iff.rfl
  by_cases h : 'A' ≤ c ∧ c ≤ 'Z'
  · have hsmall : c.val.toNat ≤ 90 := h.2
    have hlower : c.toLower.toNat = c.toNat + 32 := by
      have hsum : (c.val + 32).toNat = c.val.toNat + 32 := by
        have hdistance : (32 : UInt32).toNat = 32 := rfl
        rw [UInt32.toNat_add, hdistance, Nat.mod_eq_of_lt (by omega)]
      unfold Char.toLower
      rw [dif_pos (hcapital.mp h)]
      exact hsum
    rw [if_pos h, ← hlower, Char.ofNat_toNat]
  · unfold Char.toLower
    rw [if_neg h, dif_neg (mt hcapital.mpr h)]

theorem find?_alone {α : Type} {p : α → Bool} {l : List α} {a : α} (hmem : a ∈ l)
    (ha : p a = true) (alone : ∀ e ∈ l, p e = true → e = a) : l.find? p = some a := by
  cases hfind : l.find? p with
  | none => exact absurd ha (List.find?_eq_none.mp hfind a hmem)
  | some e => rw [alone e (List.mem_of_find?_eq_some hfind) (List.find?_some hfind)]

theorem fits_iff (n : Nat) : fits n = true ↔ n < 2 ^ 63 := by
  simp only [fits, Bool.and_eq_true, decide_eq_true_eq]
  norm_num

theorem checkRank_rank (p : Priority) : checkRank (.int p.rank) = pure (.ok p) := by
  cases p <;> rfl

theorem checkRank_tooLarge {n : Nat} (h : 2 ^ 63 ≤ n) :
    checkRank (.int n) = pure (.error tooLarge) := by
  have hout : ¬fits n = true := by
    rw [fits_iff]
    omega
  simp only [checkRank, exactInteger?, Value.int?, if_neg hout]

theorem shown_integer {i : Int} {digits : List Char} (h : Text.decimal? i = some digits) :
    (Value.int i).shown = pure digits := by
  have htext : (Value.int i).shown = Value.integerText i := rfl
  rw [htext]
  unfold Value.integerText
  rw [h]

theorem checkRank_noRank {n : Nat} (hlarge : 6 < n) (hfits : n < 2 ^ 63) :
    checkRank (.int n) = pure (.error notRank) := by
  have hrank : ∀ p : Priority, (p.rank : Int) ≠ n := by
    intro p
    cases p <;> simp only [Priority.rank] <;> omega
  have hnone : Priority.ofRank? n = none := by
    apply List.find?_eq_none.mpr
    intro p _ hp
    exact hrank p (beq_iff_eq.mp hp)
  have hunequal : (Priority.all.find? fun p => (Value.int n).equals (.int p.rank)) = none := by
    apply List.find?_eq_none.mpr
    intro p _ hp
    exact hrank p (beq_iff_eq.mp hp).symm
  have hshort : n < 10 ^ Text.digitLimit := by
    have hpow : 10 ^ 19 ≤ 10 ^ Text.digitLimit := Nat.pow_le_pow_right (by decide) (by decide)
    omega
  have hshown := shown_integer (Text.decimal?_natCast hshort)
  have hvalue : Priority.ofValue (.int n) =
      throw (.notMember (String.ofList (Text.natural 10 n)) "Priority") := by
    unfold Priority.ofValue
    dsimp only
    rw [hunequal]
    dsimp only
    rw [hshown, pure_bind]
  unfold checkRank
  simp only [exactInteger?, Value.int?, (fits_iff n).mpr hfits, hnone, if_true, checkMember, hvalue]
  rfl

theorem isVariable_iff (f : Field) (variableName : String) :
    Lookup.standard.isVariable f.name variableName = true ↔ f.Spelled variableName := by
  have hlower : Text.lowerAscii ("LVLOG_" ++ f.name) = "lvlog_" ++ f.name := by
    cases f <;> decide
  have hvariable : Lookup.standard.isVariable f.name variableName =
      (Text.lowerAscii variableName == Text.lowerAscii ("LVLOG_" ++ f.name)) := rfl
  rw [hvariable, beq_iff_eq, hlower, ← String.toList_inj, Text.lowerAscii, String.toList_ofList]
  simp only [toLower_eq, Field.Spelled]

theorem standard_value? (environment : List (String × String)) (field : String) :
    Lookup.standard.value? environment field =
      (environment.reverse.find? fun e => Lookup.standard.isVariable field e.1).map
        fun e => .text e.2 := by
  simp [Lookup.value?, Lookup.standard]

theorem Source.Gives.value? {given : Option String} (h : s.Gives f given) :
    s.value? Lookup.standard f.name = given.map .text := by
  unfold Source.value?
  cases h with
  | byName given =>
    rw [given]
    rfl
  | @byVariable x variableName free isSet spelled alone =>
    have hfound := find?_alone (List.mem_reverse.mpr isSet) ((isVariable_iff f _).mpr spelled)
      fun e he hvariable => alone e (List.mem_reverse.mp he) ((isVariable_iff f e.1).mp hvariable)
    rw [free, standard_value?, hfound]
    rfl
  | nowhere free unset =>
    have hnone : (s.environment.reverse.find? fun e => Lookup.standard.isVariable f.name e.1) =
        none := by
      apply List.find?_eq_none.mpr
      intro e he hvariable
      exact unset e (List.mem_reverse.mp he) ((isVariable_iff f e.1).mp hvariable)
    rw [free, standard_value?, hnone]
    rfl

theorem Source.Plain.lookup (h : s.Plain) : Lookup.ofGiven s.given = .ok Lookup.standard := by
  have hnone : ∀ option ∈ ["_env_prefix", "_case_sensitive", "_env_ignore_empty",
      "_env_parse_none_str"], Lookup.given? s.given option = none := by
    intro option hoption
    rw [Lookup.given?, h option hoption]
  simp only [List.forall_mem_cons] at hnone
  obtain ⟨hline, hcase, hempty, hword, -⟩ := hnone
  unfold Lookup.ofGiven
  simp only [hline, hcase, hempty, hword]
  rfl

theorem standard_lawful : Library.standard.Lawful := by
  have hrank : Library.standard.rank = checkRank := rfl
  constructor
  case values =>
    intro s plain
    refine ⟨s.value? Lookup.standard, ?_, fun f given gives => gives.value?⟩
    change (Lookup.ofGiven s.given).map s.value? = _
    rw [plain.lookup]
    rfl
  case wrongValue =>
    intro fault wrong
    exact if_pos wrong
  case text => exact fun _ => rfl
  case rank =>
    rw [hrank]
    exact checkRank_rank
  case noRank =>
    intro n large fits
    rw [hrank]
    exact checkRank_noRank large fits
  case tooLarge =>
    intro n large
    rw [hrank]
    exact checkRank_tooLarge large

theorem field_judged (f : Field) (x : String) : f.Judged x := by
  by_cases hpriority : f = .priority
  · exact hpriority ▸ (decides_priority standard_lawful).judged x
  · by_cases hflags : f = .flags
    · exact hflags ▸ (decides_flags standard_lawful).judged x
    · exact judged_text hpriority hflags x

end

section

variable {α : Type} {lib : Library} {s : Source} {t : Field → Option String} {f : Field}
  {reads : String → α → Prop} {check : Value → Render (Except Problem α)} {default a : α}
  {given : Option String}

theorem Decides.field_means (h : Decides f reads check) (hmeans : Means reads default given a) :
    field (given.map .text) f.name default check = pure (.ok a) := by
  cases given with
  | none =>
    obtain rfl : a = default := hmeans
    rfl
  | some x =>
    rw [Option.map_some, field, h.accepts x a hmeans, pure_bind]

theorem Decides.field_refuses (h : Decides f reads check) {x : String} {p : FieldProblem}
    (hrefuses : f.Refuses x p) :
    field (some (.text x)) f.name default check = pure (.error p) := by
  obtain ⟨hfield, hcheck⟩ := h.refuses x p hrefuses
  rw [field, hcheck, pure_bind, ← hfield]

theorem Decides.settles (h : Decides f reads check) (default : α) (given : Option String) :
    ∃ e, field (given.map .text) f.name default check = pure e ∧
      Settled reads default f given e := by
  cases given with
  | none => exact ⟨.ok default, rfl, .read rfl⟩
  | some x =>
    rcases h.total x with ⟨a, ha⟩ | ⟨p, hp⟩
    · exact ⟨.ok a, h.field_means ha, .read ha⟩
    · exact ⟨.error p, h.field_refuses hp, .refused rfl hp⟩

theorem field_optional (lawful : lib.Lawful) (given : Option String) (name : String) :
    field (given.map .text) name none (checkOptionalText lib) = pure (.ok given) := by
  cases given with
  | none => rfl
  | some x =>
    have htext : checkOptionalText lib (.text x) = pure ((lib.text (.text x)).map some) := rfl
    rw [Option.map_some, field, htext, lawful.text, pure_bind]
    rfl

theorem field_text (lawful : lib.Lawful) (given : Option String) (name default : String) :
    field (given.map .text) name default (checkText lib) = pure (.ok (given.getD default)) := by
  cases given with
  | none => rfl
  | some x =>
    rw [Option.map_some, field, checkText, lawful.text, pure_bind]
    rfl

theorem load_eq (lawful : lib.Lawful) (plain : s.Plain) (gives : ∀ f, s.Gives f (t f))
    {priority : Except FieldProblem Priority} {flags : Except FieldProblem Flags}
    (hpriority : field ((t .priority).map .text) "priority" Priority.none (checkPriority lib) =
      pure priority)
    (hflags : field ((t .flags).map .text) "flags" Flags.standard (checkFlags lib) = pure flags) :
    load lib s = together t priority flags := by
  obtain ⟨value, hfound, hgiven⟩ := lawful.values s plain
  have hvalue : ∀ f : Field, value f.name = (t f).map .text := fun f => hgiven f _ (gives f)
  have hdestination : field (value "destination") "destination" none (checkOptionalText lib) =
      pure (.ok (t .destination)) :=
    hvalue .destination ▸ field_optional lawful (t .destination) "destination"
  have hline : field (value "prefix") "prefix" "" (checkText lib) =
      pure (.ok ((t .linePrefix).getD "")) :=
    hvalue .linePrefix ▸ field_text lawful (t .linePrefix) "prefix" ""
  have haddress : field (value "syslog_address") "syslog_address" defaultAddress (checkText lib) =
      pure (.ok ((t .syslogAddress).getD defaultAddress)) :=
    hvalue .syslogAddress ▸ field_text lawful (t .syslogAddress) "syslog_address" defaultAddress
  have hident : field (value "syslog_ident") "syslog_ident" none (checkOptionalText lib) =
      pure (.ok (t .syslogIdent)) :=
    hvalue .syslogIdent ▸ field_optional lawful (t .syslogIdent) "syslog_ident"
  have hvalues : (ofExcept (lib.values s) : Render (String → Option Value)) = pure value := by
    rw [hfound]
    rfl
  rw [← hvalue .priority, Field.name] at hpriority
  rw [← hvalue .flags, Field.name] at hflags
  unfold load
  rw [hvalues, pure_bind, hdestination, pure_bind, hpriority, pure_bind, hline, pure_bind,
    hflags, pure_bind, haddress, pure_bind, hident, pure_bind]
  cases priority <;> cases flags <;> rfl

theorem Decides.accepts_of_means (h : Decides f reads check) {x : String}
    (hmeans : Means reads default (t f) a) (hx : t f = some x) : f.Accepts x := by
  rw [hx] at hmeans
  exact (h.readable x).mpr ⟨a, hmeans⟩

theorem Decides.entry {fs : List Field} {ps : List FieldProblem} {e : Except FieldProblem α}
    (h : Decides f reads check)
    (hfield : field ((t f).map .text) f.name default check = pure e) (more : Entries t fs ps) :
    Entries t (f :: fs) (problemOf e ++ ps) := by
  obtain ⟨e', he', hsettled⟩ := h.settles default (t f)
  obtain rfl := pure_inj (hfield.symm.trans he')
  cases hsettled with
  | read means => exact .valid (fun x hx => h.accepts_of_means means hx) more
  | refused isGiven refuses => exact .invalid isGiven refuses more

theorem Reads.known {r : Settings} (h : Reads t r) : r.flags.bits ≤ 63 := by
  have hflags := h.flags
  cases hgiven : t .flags with
  | none =>
    rw [hgiven] at hflags
    have hstandard : r.flags = .standard := hflags
    rw [hstandard]
    decide
  | some x =>
    rw [hgiven] at hflags
    exact Flags.parse_text_known hflags

theorem load_of_reads (lawful : lib.Lawful) (plain : s.Plain) (gives : ∀ f, s.Gives f (t f))
    {r : Settings} (h : Reads t r) : load lib s = pure r := by
  have hpriority := (decides_priority lawful).field_means h.priority
  have hflags := (decides_flags lawful).field_means h.flags
  rw [load_eq lawful plain gives hpriority hflags]
  have hsettings : (⟨t .destination, r.priority, (t .linePrefix).getD "", r.flags,
      (t .syslogAddress).getD defaultAddress, t .syslogIdent⟩ : Settings) = r := by
    rw [← h.destination, ← h.linePrefix, ← h.syslogAddress, ← h.syslogIdent]
  exact congrArg pure hsettings

theorem entries_of_fields (lawful : lib.Lawful) {priority : Except FieldProblem Priority}
    {flags : Except FieldProblem Flags}
    (hpriority : field ((t .priority).map .text) "priority" Priority.none (checkPriority lib) =
      pure priority)
    (hflags : field ((t .flags).map .text) "flags" Flags.standard (checkFlags lib) = pure flags) :
    Entries t Field.all (problemOf priority ++ problemOf flags) := by
  have hrest : Entries t [.syslogAddress, .syslogIdent] [] :=
    .valid (fun _ _ => trivial) (.valid (fun _ _ => trivial) .done)
  have hlast := (decides_flags lawful).entry hflags hrest
  rw [List.append_nil] at hlast
  have hmiddle : Entries t [.linePrefix, .flags, .syslogAddress, .syslogIdent] (problemOf flags) :=
    .valid (fun _ _ => trivial) hlast
  exact .valid (fun _ _ => trivial) ((decides_priority lawful).entry hpriority hmiddle)

/-- Texts are settings, or a field refuses its own. -/
theorem load_cases (lawful : lib.Lawful) (plain : s.Plain) (gives : ∀ f, s.Gives f (t f)) :
    (∃ r, Reads t r ∧ load lib s = pure r) ∨
      (∃ f x, t f = some x ∧ ¬f.Accepts x) ∧
        ∃ problems, Entries t Field.all problems ∧
          load lib s = throw (.invalidSettings problems) := by
  obtain ⟨priority, hpriority, hp⟩ := (decides_priority lawful).settles Priority.none (t .priority)
  obtain ⟨flags, hflags, hf⟩ := (decides_flags lawful).settles Flags.standard (t .flags)
  have hentries := entries_of_fields lawful hpriority hflags
  have hload := load_eq lawful plain gives hpriority hflags
  cases hp with
  | read hp =>
    cases hf with
    | read hf => exact .inl ⟨_, ⟨rfl, hp, rfl, hf, rfl, rfl⟩, hload⟩
    | @refused x p hx hrefuses =>
      exact .inr ⟨⟨.flags, x, hx, (field_judged _ x).refused.mpr ⟨p, hrefuses⟩⟩, _, hentries, hload⟩
  | @refused x p hx hrefuses =>
    have hinvalid : ∃ f x, t f = some x ∧ ¬f.Accepts x :=
      ⟨.priority, x, hx, (field_judged _ x).refused.mpr ⟨p, hrefuses⟩⟩
    cases flags <;> exact .inr ⟨hinvalid, _, hentries, hload⟩

theorem Reads.accepts {r : Settings} (h : Reads t r) {x : String} (hx : t f = some x) :
    f.Accepts x := by
  cases f with
  | priority => exact (decides_priority standard_lawful).accepts_of_means h.priority hx
  | flags => exact (decides_flags standard_lawful).accepts_of_means h.flags hx
  | destination => trivial
  | linePrefix => trivial
  | syslogAddress => trivial
  | syslogIdent => trivial

theorem load_validated (lawful : lib.Lawful) (plain : s.Plain) (gives : ∀ f, s.Gives f (t f)) :
    Validated t (load lib s).outcome := by
  have hread : ∀ r, (load lib s).outcome = .ok r ↔ Reads t r := by
    intro r
    constructor
    · intro hok
      rcases load_cases lawful plain gives with ⟨r', hr', hload⟩ | ⟨-, problems, -, hload⟩
      · rw [hload] at hok
        obtain rfl : r' = r := Except.ok.inj hok
        exact hr'
      · rw [hload] at hok
        cases hok
    · intro hr
      rw [load_of_reads lawful plain gives hr]
      rfl
  refine ⟨hread, ?_, ?_, ?_⟩
  · intro r hok
    exact ((hread r).mp hok).known
  · constructor
    · rintro ⟨r, hok⟩ f x hx
      exact ((hread r).mp hok).accepts hx
    · intro haccepts
      rcases load_cases lawful plain gives with ⟨r, hr, -⟩ | ⟨⟨f, x, hx, hrefused⟩, -⟩
      · exact ⟨r, (hread r).mpr hr⟩
      · exact absurd (haccepts f x hx) hrefused
  · intro fault hfault
    rcases load_cases lawful plain gives with ⟨r, -, hload⟩ | ⟨-, problems, hentries, hload⟩
    · rw [hload] at hfault
      cases hfault
    · rw [hload] at hfault
      obtain rfl : Fault.invalidSettings problems = fault := Except.error.inj hfault
      exact ⟨problems, rfl, hentries⟩

/-- However texts are given, they are the same settings, or the same fields are refused. -/
theorem settings_validated (lawful : lib.Lawful) (plain : s.Plain) (gives : ∀ f, s.Gives f (t f)) :
    Validated t (load lib s).outcome ∧
      (∀ s' : Source, s'.Plain → (∀ f, s'.Gives f (t f)) → load lib s' = load lib s) ∧
      ∀ (f : Field) (x : String), f.Judged x := by
  refine ⟨load_validated lawful plain gives, ?_, field_judged⟩
  intro s' plain' gives'
  obtain ⟨priority, hpriority, -⟩ := (decides_priority lawful).settles Priority.none (t .priority)
  obtain ⟨flags, hflags, -⟩ := (decides_flags lawful).settles Flags.standard (t .flags)
  rw [load_eq lawful plain gives hpriority hflags, load_eq lawful plain' gives' hpriority hflags]

/-- A priority and header options that are both refused, one given by name and one by a variable. -/
def misspelled : Source where
  given := [("prefix", .text "app: "), ("priority", .text " loud ")]
  environment := [("HOME", "/"), ("Lvlog_Flags", "DATE|nope"), ("LVLOG_PRIORITY", "INFO")]

def misspelledTexts : Field → Option String
  | .linePrefix => some "app: "
  | .priority => some " loud "
  | .flags => some "DATE|nope"
  | _ => none

theorem misspelled_validated :
    (Library.standard.Lawful ∧ misspelled.Plain ∧ ∀ f, misspelled.Gives f (misspelledTexts f)) ∧
      Validated misspelledTexts (load .standard misspelled).outcome ∧
      (load .standard misspelled).outcome = .error (.invalidSettings [
        ⟨"priority", "value_error",
          "Value error, LVLOG_CONFIG_ERROR: Invalid log priority: loud"⟩,
        ⟨"flags", "value_error",
          "Value error, LVLOG_CONFIG_ERROR: Invalid format flag: nope"⟩]) := by
  have hplain : misspelled.Plain := by
    intro option hoption
    simp only [List.mem_cons, List.not_mem_nil, or_false] at hoption
    rcases hoption with rfl | rfl | rfl | rfl <;> rfl
  have hgives : ∀ f, misspelled.Gives f (misspelledTexts f) := by
    intro f
    cases f with
    | linePrefix => exact .byName rfl
    | priority => exact .byName rfl
    | flags =>
      have hset : ("Lvlog_Flags", "DATE|nope") ∈ misspelled.environment := by decide
      exact .byVariable rfl hset (by decide) (by decide)
    | destination => exact .nowhere rfl (by decide)
    | syslogAddress => exact .nowhere rfl (by decide)
    | syslogIdent => exact .nowhere rfl (by decide)
  exact ⟨⟨standard_lawful, hplain, hgives⟩, (settings_validated standard_lawful hplain hgives).1,
    by rfl⟩

end

end LeveledLog.Settings
