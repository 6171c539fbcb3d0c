import LeveledLog.Proofs.Flags.Verdicts
import LeveledLog.Proofs.Template.Shown
import LeveledLog.Settings

/-!
Fields of settings. Each field accepts a text or refuses it, and what is reported of a refused text
follows from the text alone. A priority is refused for being no number that can be read, no rank, or
no name; header options are refused for what reading them comes to; any other text is taken as it
is. The library that the settings are built on finds the texts, and this is what it promises.
-/

namespace LeveledLog

open Text (Stripped Numeral Unread worth)

/-- The priority that a text stands for: no priority by its name, one by a name of the
configuration, or one by its rank. -/
inductive Priority.Reads (s : String) : Priority → Prop where
  | nothing (word : Stripped Text.isBlank s.toList "NONE".toList) : Reads s .none
  | named {name : String} {p : Priority} (word : Stripped Text.isBlank s.toList name.toList)
      (listed : (name, p) ∈ configNames) : Reads s p
  | ranked {t : List Char} {p : Priority} (number : Stripped Text.isBlank s.toList t)
      (numeral : Numeral t) (rank : worth t = p.rank) : Reads s p

def Flags.Reads (s : String) (f : Flags) : Prop := (parse (.text s)).outcome = .ok f

namespace Settings

inductive Field where
  | destination
  | priority
  | linePrefix
  | flags
  | syslogAddress
  | syslogIdent
  deriving DecidableEq

namespace Field

def all : List Field := [destination, priority, linePrefix, flags, syslogAddress, syslogIdent]

def name : Field → String
  | destination => "destination"
  | priority => "priority"
  | linePrefix => "prefix"
  | flags => "flags"
  | syslogAddress => "syslog_address"
  | syslogIdent => "syslog_ident"

def Accepts : Field → String → Prop
  | priority, s => ∃ p, Priority.Reads s p
  | flags, s => ∃ f, Flags.Reads s f
  | _, _ => True

inductive Refuses : Field → String → FieldProblem → Prop where
  | flags {s : String} {fault : Fault} (fails : (Flags.parse (.text s)).outcome = .error fault) :
      Refuses flags s ⟨"flags", "value_error", "Value error, " ++ fault.text⟩
  | unread {s : String} {t : List Char} {e : Text.NumeralError}
      (number : Stripped Text.isBlank s.toList t) (unread : Unread t e) :
      Refuses priority s ⟨"priority", "value_error",
        "Value error, " ++ (Fault.ofNumeral (Text.quote t) e).text⟩
  | noRank {s : String} {t : List Char} (number : Stripped Text.isBlank s.toList t)
      (numeral : Numeral t) (large : 6 < worth t) (fits : worth t < 2 ^ 63) :
      Refuses priority s ⟨"priority", "enum", "Input should be 0, 1, 2, 3, 4, 5 or 6"⟩
  | tooLarge {s : String} {t : List Char} (number : Stripped Text.isBlank s.toList t)
      (numeral : Numeral t) (large : 2 ^ 63 ≤ worth t) :
      Refuses priority s ⟨"priority", "int_parsing_size",
        "Unable to parse input string as an integer, exceeded maximum size"⟩
  | unlisted {s name : String} (word : Stripped Text.isBlank s.toList name.toList)
      (noNumber : name.toList = [] ∨ ∃ c ∈ name.toList, Text.isDigit c = false)
      (other : name ≠ "NONE") (unlisted : ∀ p, (name, p) ∉ Priority.configNames) :
      Refuses priority s ⟨"priority", "value_error",
        "Value error, LVLOG_CONFIG_ERROR: Invalid log priority: " ++ name⟩

end Field

def Field.Spelled (f : Field) (variableName : String) : Prop :=
  variableName.toList.map Char.toLower = ("lvlog_" ++ f.name).toList

instance (f : Field) (variableName : String) : Decidable (f.Spelled variableName) :=
  inferInstanceAs (Decidable (_ = _))

/-- How a source gives a field its text. What is given by name goes before the environment. -/
inductive Source.Gives (s : Source) (f : Field) : Option String → Prop where
  | byName {x : String} (given : s.given.lookup f.name = some (.text x)) : Gives s f (some x)
  | byVariable {x variableName : String} (free : s.given.lookup f.name = none)
      (isSet : (variableName, x) ∈ s.environment) (spelled : f.Spelled variableName)
      (alone : ∀ e ∈ s.environment, f.Spelled e.1 → e = (variableName, x)) : Gives s f (some x)
  | nowhere (free : s.given.lookup f.name = none)
      (unset : ∀ e ∈ s.environment, ¬f.Spelled e.1) : Gives s f none

/-- Nothing is given that changes how the environment is read. -/
def Source.Plain (s : Source) : Prop :=
  ∀ option ∈ ["_env_prefix", "_case_sensitive", "_env_ignore_empty", "_env_parse_none_str"],
    s.given.lookup option = none

/-- What is promised of a library of settings. What is given to a field comes to it, a wrong value
is a problem, a text is a text, and the ranks of priorities are the integers that are taken for
one. -/
structure Library.Lawful (lib : Library) : Prop where
  values : ∀ s : Source, s.Plain → ∃ value, lib.values s = .ok value ∧
    ∀ (f : Field) (given : Option String), s.Gives f given → value f.name = given.map .text
  wrongValue : ∀ fault : Fault, fault.isWrongValue = true →
    lib.problem? fault = some ("value_error", "Value error, " ++ fault.text)
  text : ∀ s, lib.text (.text s) = .ok s
  rank : ∀ p : Priority, lib.rank (.int p.rank) = pure (.ok p)
  noRank : ∀ n : Nat, 6 < n → n < 2 ^ 63 →
    lib.rank (.int n) = pure (.error ("enum", "Input should be 0, 1, 2, 3, 4, 5 or 6"))
  tooLarge : ∀ n : Nat, 2 ^ 63 ≤ n → lib.rank (.int n) = pure (.error
    ("int_parsing_size", "Unable to parse input string as an integer, exceeded maximum size"))

/-- What is reported of a field follows from its own text. -/
structure Field.Judged (f : Field) (s : String) : Prop where
  refused : ¬f.Accepts s ↔ ∃ p, f.Refuses s p
  once : ∀ p q, f.Refuses s p → f.Refuses s q → p = q
  named : ∀ p, f.Refuses s p → p.field = f.name

/-- A check that comes to a reading of every text, or to what is reported of it. -/
structure Decides {α : Type} (f : Field) (reads : String → α → Prop)
    (check : Value → Render (Except Problem α)) : Prop where
  readable : ∀ s, f.Accepts s ↔ ∃ a, reads s a
  accepts : ∀ s a, reads s a → check (.text s) = pure (.ok a)
  refuses : ∀ s p, f.Refuses s p →
    p.field = f.name ∧ check (.text s) = pure (.error (p.kind, p.message))
  total : ∀ s, (∃ a, reads s a) ∨ ∃ p, f.Refuses s p

section

variable {lib : Library} {x : String}

theorem ofRender_pure {α : Type} (a : α) : ofRender lib (pure a) = pure (.ok a) := rfl

theorem ofRender_throw (lawful : lib.Lawful) {α : Type} {fault : Fault}
    (wrong : fault.isWrongValue = true) :
    ofRender lib (throw fault : Render α) = pure (.error (faultProblem fault)) := by
  have hproblem := lawful.wrongValue fault wrong
  rw [ofRender, Render.map_throw, Render.catch_throw]
  simp only [hproblem]
  rfl

theorem ofNumeral_wrongValue (shown : List Char) (e : Text.NumeralError) :
    (Fault.ofNumeral shown e).isWrongValue = true := by
  cases e <;> rfl

theorem readInteger_numeral {body : List Char} (h : Numeral body) (v : Value) :
    v.readInteger body = pure (worth body : Int) := by
  rw [Value.readInteger, h.readInteger_eq]

theorem readInteger_unread {body : List Char} {e : Text.NumeralError} (h : Unread body e) :
    (Value.text (String.ofList body)).readInteger body =
      throw (Fault.ofNumeral (Text.quote body) e) := by
  rw [Value.readInteger, h.readInteger_eq]
  cases e with
  | malformed =>
    dsimp only
    rw [Value.shown_text, pure_bind, String.toList_ofList]
  | tooLong => rfl

theorem checkPriority_text {body : List Char} (h : Stripped Text.isBlank x.toList body) :
    checkPriority lib (.text x) =
      if Text.isDigits (String.ofList body) then do
        match ← ofRender lib (Value.readInteger (.text (String.ofList body)) body) with
        | .ok n => lib.rank (.int n)
        | .error e => pure (.error e)
      else if String.ofList body = Priority.none.name then pure (.ok .none)
      else ofRender lib (Priority.ofName (.text (String.ofList body))) := by
  obtain rfl : Text.strip x.toList = body := h.eq_trim
  rfl

theorem checkPriority_numeral {body : List Char} (h : Stripped Text.isBlank x.toList body)
    (hnumeral : Numeral body) : checkPriority lib (.text x) = lib.rank (.int (worth body)) := by
  have hdigits := Text.isDigits_iff.mpr ⟨hnumeral.nonempty, hnumeral.digits⟩
  rw [checkPriority_text h, if_pos hdigits, readInteger_numeral hnumeral, ofRender_pure, pure_bind]

theorem checkPriority_unread (lawful : lib.Lawful) {body : List Char} {e : Text.NumeralError}
    (h : Stripped Text.isBlank x.toList body) (hunread : Unread body e) :
    checkPriority lib (.text x) =
      pure (.error (faultProblem (Fault.ofNumeral (Text.quote body) e))) := by
  have hdigits := Text.isDigits_iff.mpr ⟨hunread.nonempty, hunread.digits⟩
  rw [checkPriority_text h, if_pos hdigits, readInteger_unread hunread,
    ofRender_throw lawful (ofNumeral_wrongValue _ e), pure_bind]

theorem not_listed_iff (name : String) :
    Priority.ofConfigName? name = none ↔ ∀ p, (name, p) ∉ Priority.configNames := by
  rw [Priority.ofConfigName?, List.lookup_eq_none_iff]
  constructor
  · intro h p hp
    simpa using h (name, p) hp
  · rintro h ⟨other, p⟩ hp
    rw [bne_iff_ne]
    rintro rfl
    exact h p hp

theorem checkPriority_unlisted (lawful : lib.Lawful) {name : String}
    (h : Stripped Text.isBlank x.toList name.toList)
    (hword : name.toList = [] ∨ ∃ c ∈ name.toList, Text.isDigit c = false) (hother : name ≠ "NONE")
    (hunlisted : ∀ p, (name, p) ∉ Priority.configNames) :
    checkPriority lib (.text x) = pure (.error ("value_error",
      "Value error, LVLOG_CONFIG_ERROR: Invalid log priority: " ++ name)) := by
  have hrefused : Priority.ofName (.text name) =
      throw (.badSetting "priority" ("Invalid log priority: " ++ name) (some name)) := by
    have hhashable : (Value.text name).hashable = true := rfl
    have hnone : (Value.text name).text?.bind Priority.ofConfigName? = none :=
      (not_listed_iff name).mpr hunlisted
    have hunknown : Priority.unknownName (.text name) =
        pure (.badSetting "priority" ("Invalid log priority: " ++ String.ofList name.toList)
          (some (String.ofList name.toList))) := rfl
    rw [String.ofList_toList] at hunknown
    rw [Priority.ofName, hhashable, hnone, hunknown]
    rfl
  have hnothing : name ≠ Priority.none.name := hother
  rw [checkPriority_text h, if_neg (Text.not_isDigits_iff.mpr hword), String.ofList_toList,
    if_neg hnothing, hrefused, ofRender_throw lawful rfl]
  have hwording : "Value error, " ++ ("LVLOG_CONFIG_ERROR" ++ ": " ++
      ("Invalid log priority: " ++ name)) =
        "Value error, LVLOG_CONFIG_ERROR: Invalid log priority: " ++ name := by
    rw [← String.append_assoc, ← String.append_assoc]
    exact congrArg (· ++ name) (by decide)
  rw [← hwording]
  rfl

theorem checkFlags_text (lib : Library) (x : String) : checkFlags lib (.text x) =
    ofRender lib (Flags.accept x.toList (Flags.read x)) := by
  have hchecked : checkFlags lib (.text x) = ofRender lib (Flags.parse (.text x)) := rfl
  rw [hchecked, Flags.parse_text]

theorem decides_flags (lawful : lib.Lawful) : Decides .flags Flags.Reads (checkFlags lib) := by
  constructor
  · intro x
    rfl
  · intro x f hreads
    rw [Flags.Reads, Flags.parse_text, Flags.accept_ok_iff] at hreads
    rw [checkFlags_text, hreads]
    rfl
  · rintro x _ ⟨hfails⟩
    refine ⟨rfl, ?_⟩
    rw [Flags.parse_text] at hfails
    rw [checkFlags_text]
    cases hread : Flags.read x with
    | ok f =>
      rw [hread, Flags.accept_ok_iff.mpr rfl] at hfails
      cases hfails
    | error e =>
      obtain ⟨fault, hfault, hwrong⟩ := Flags.accept_error x.toList e
      rw [hread, hfault] at hfails
      cases hfails
      rw [hfault, ofRender_throw lawful hwrong]
      rfl
  · intro x
    cases houtcome : (Flags.parse (.text x)).outcome with
    | ok f => exact .inl ⟨f, houtcome⟩
    | error fault => exact .inr ⟨_, .flags houtcome⟩

theorem listed_is_word : ∀ e ∈ Priority.configNames, Text.isDigits e.1 = false ∧
    e.1 ≠ Priority.none.name ∧ Priority.ofConfigName? e.1 = some e.2 := by
  decide

theorem checkPriority_listed {name : String} {p : Priority}
    (h : Stripped Text.isBlank x.toList name.toList) (hlisted : (name, p) ∈ Priority.configNames) :
    checkPriority lib (.text x) = pure (.ok p) := by
  obtain ⟨hword, hother, hfound⟩ := listed_is_word (name, p) hlisted
  have hname : Priority.ofName (.text name) = pure p := by
    unfold Priority.ofName
    have hbind : (Value.text name).text?.bind Priority.ofConfigName? = some p := hfound
    rw [hbind]
    rfl
  rw [checkPriority_text h, String.ofList_toList, hword, if_neg Bool.false_ne_true, if_neg hother,
    hname, ofRender_pure]

theorem decides_priority (lawful : lib.Lawful) :
    Decides .priority Priority.Reads (checkPriority lib) := by
  constructor
  · intro x
    rfl
  · intro x p hreads
    cases hreads with
    | nothing word =>
      rw [checkPriority_text word]
      rfl
    | named word listed => exact checkPriority_listed word listed
    | ranked number numeral rank =>
      rw [checkPriority_numeral number numeral, rank, lawful.rank]
  · intro x p hrefuses
    cases hrefuses with
    | unread number unread => exact ⟨rfl, checkPriority_unread lawful number unread⟩
    | noRank number numeral large fits =>
      refine ⟨rfl, ?_⟩
      rw [checkPriority_numeral number numeral, lawful.noRank _ large fits]
    | tooLarge number numeral large =>
      refine ⟨rfl, ?_⟩
      rw [checkPriority_numeral number numeral, lawful.tooLarge _ large]
    | unlisted word noNumber other unlisted =>
      exact ⟨rfl, checkPriority_unlisted lawful word noNumber other unlisted⟩
  · intro x
    have hstripped : Stripped Text.isBlank x.toList (Text.strip x.toList) :=
      Text.stripped_iff.mpr rfl
    generalize Text.strip x.toList = body at hstripped
    rcases Text.numeral_cases body with hnumeral | ⟨e, hunread⟩ | hword
    · by_cases hrank : worth body ≤ 6
      · have hrange : ∃ p : Priority, worth body = p.rank := by
          generalize worth body = n at hrank
          interval_cases n
          exacts [⟨.none, rfl⟩, ⟨.debug, rfl⟩, ⟨.info, rfl⟩, ⟨.warning, rfl⟩, ⟨.error, rfl⟩,
            ⟨.critical, rfl⟩, ⟨.emergency, rfl⟩]
        obtain ⟨p, hp⟩ := hrange
        exact .inl ⟨p, .ranked hstripped hnumeral hp⟩
      · by_cases hfits : worth body < 2 ^ 63
        · exact .inr ⟨_, .noRank hstripped hnumeral (by omega) hfits⟩
        · exact .inr ⟨_, .tooLarge hstripped hnumeral (by omega)⟩
    · exact .inr ⟨_, .unread hstripped hunread⟩
    · have hname : body = (String.ofList body).toList := String.toList_ofList.symm
      rw [hname] at hstripped hword
      generalize String.ofList body = name at hstripped hword
      by_cases hnone : name = "NONE"
      · rw [hnone] at hstripped
        exact .inl ⟨.none, .nothing hstripped⟩
      · by_cases hlisted : ∃ p, (name, p) ∈ Priority.configNames
        · obtain ⟨p, hp⟩ := hlisted
          exact .inl ⟨p, .named hstripped hp⟩
        · exact .inr ⟨_, .unlisted hstripped hword hnone (not_exists.mp hlisted)⟩

end

section

variable {α : Type} {f : Field} {reads : String → α → Prop}
  {check : Value → Render (Except Problem α)} {a b : α}

theorem pure_inj (h : (pure a : Render α) = pure b) : a = b :=
  Except.ok.inj (congrArg Render.outcome h)

theorem Decides.judged (h : Decides f reads check) (x : String) : f.Judged x := by
  constructor
  · rw [h.readable x]
    constructor
    · intro hunread
      rcases h.total x with hread | hrefused
      · exact absurd hread hunread
      · exact hrefused
    · rintro ⟨p, hp⟩ ⟨a, ha⟩
      have hboth := (h.accepts x a ha).symm.trans (h.refuses x p hp).2
      cases pure_inj hboth
  · intro p q hp hq
    obtain ⟨hpfield, hpcheck⟩ := h.refuses x p hp
    obtain ⟨hqfield, hqcheck⟩ := h.refuses x q hq
    obtain ⟨hkind, hmessage⟩ :=
      Prod.mk.inj (Except.error.inj (pure_inj (hpcheck.symm.trans hqcheck)))
    cases p
    cases q
    simp_all
  · intro p hp
    exact (h.refuses x p hp).1

theorem judged_text (hpriority : f ≠ .priority) (hflags : f ≠ .flags) (x : String) :
    f.Judged x := by
  have hnever : ∀ p, ¬f.Refuses x p := by
    intro p hp
    cases hp <;> simp_all
  refine ⟨?_, fun p _ hp => absurd hp (hnever p), fun p hp => absurd hp (hnever p)⟩
  constructor
  · intro hnot
    cases f <;> simp_all [Field.Accepts]
  · rintro ⟨p, hp⟩
    exact absurd hp (hnever p)

end

end Settings

end LeveledLog
