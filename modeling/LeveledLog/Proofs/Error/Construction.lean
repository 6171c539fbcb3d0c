import LeveledLog.Proofs.Error.Context
import LeveledLog.Proofs.Logger.Direct
import LeveledLog.Proofs.Value.Looks

/-!
Errors as they are made and added to. Whatever class an error has and however its arguments are
given, its context is what the initial context, the extra keywords, the class's own parameters and
the later additions come to when they are written in that order.
-/

namespace LeveledLog

namespace Arguments

def argument (a : Arguments) (parameters : List String) (p : String) : Option Value :=
  ((parameters.zip a.positional).lookup p).or (a.named.lookup p)

section

variable {a : Arguments} {parameters : List String} {named left : List (String × Value)}
  {bound : List (Option Value)} {key : String}

theorem bound_eq {positional : List Value} (named : List (String × Value))
    (hlength : positional.length ≤ parameters.length) (hnodup : parameters.Nodup) :
    positional.map some ++ (parameters.drop positional.length).map (fun p => named.lookup p) =
      parameters.map (argument ⟨positional, named⟩ parameters) := by
  induction positional generalizing parameters with
  | nil =>
    have hnone : argument ⟨[], named⟩ parameters = fun p => named.lookup p := by
      funext p
      rw [argument, List.zip_nil_right]
      rfl
    rw [hnone]
    rfl
  | cons v positional ih =>
    cases parameters with
    | nil => exact absurd hlength (Nat.not_succ_le_zero _)
    | cons p parameters =>
      obtain ⟨hnew, hrest⟩ := List.nodup_cons.mp hnodup
      have hsame : parameters.map (argument ⟨v :: positional, named⟩ (p :: parameters)) =
          parameters.map (argument ⟨positional, named⟩ parameters) := by
        apply List.map_congr_left
        intro q hq
        have hother : q ≠ p := fun h => hnew (h ▸ hq)
        rw [argument, argument, List.zip_cons_cons, List.lookup_cons,
          beq_eq_false_iff_ne.mpr hother]
      have hfirst : argument ⟨v :: positional, named⟩ (p :: parameters) p = some v := by
        rw [argument, List.zip_cons_cons, List.lookup_cons_self]
        rfl
      have htail := ih (Nat.le_of_succ_le_succ hlength) hrest
      refine Eq.trans ?_ (congrArg₂ List.cons hfirst.symm hsame.symm)
      exact congrArg (List.cons (some v)) htail

/-- Every parameter has its argument, and what is named otherwise is left. -/
theorem bind?_eq_some (hnodup : parameters.Nodup) (h : a.bind? parameters = some (bound, left)) :
    bound = parameters.map (a.argument parameters) ∧
      left = a.named.filter fun n => !parameters.contains n.1 := by
  unfold bind? at h
  dsimp only at h
  split at h
  · cases h
  · rename_i hlength
    split at h
    · cases h
    · cases h
      exact ⟨bound_eq a.named (Nat.not_lt.mp hlength) hnodup, rfl⟩

theorem argument_other (h : key ∉ parameters) : a.argument parameters key = a.named.lookup key := by
  have hnone : (parameters.zip a.positional).lookup key = none := by
    rw [List.lookup_eq_none_iff]
    intro e he
    have hmem := (List.of_mem_zip he).1
    simpa using fun hkey : key = e.1 => h (hkey ▸ hmem)
  rw [argument, hnone]
  rfl

theorem lookup_filter (keep : String → Bool) (h : keep key = true) :
    (named.filter fun n => keep n.1).lookup key = named.lookup key := by
  induction named with
  | nil => rfl
  | cons n named ih =>
    obtain ⟨other, v⟩ := n
    rw [List.filter_cons, LogError.lookup_cons_eq]
    by_cases hother : key = other
    · subst hother
      rw [if_pos h, LogError.lookup_cons_eq, if_pos rfl, if_pos rfl]
    · rw [if_neg hother, ← ih]
      by_cases hkeep : keep other = true
      · rw [if_pos hkeep, LogError.lookup_cons_eq, if_neg hother]
      · rw [if_neg hkeep]

end

end Arguments

namespace LogError

open Render

def generalParameters : List String := ["message", "code", "severity", "context"]

def extras (kind : ErrorClass) (a : Arguments) : List (String × Value) :=
  a.named.filter fun n => !(generalParameters ++ kind.parameters.1).contains n.1

/-- An initial context: none, or a mapping with strings for keys. -/
inductive Initial : Option Value → List (String × Value) → Prop where
  | absent : Initial none []
  | nothing : Initial (some .none) []
  | mapping {v : Value} {es : List (Value × Value)} {named : List (String × Value)}
      (entries : v.entries? = some es) (spelled : Spells es named)
      (distinct : (named.map (·.1)).Nodup) : Initial (some v) named

/-- An argument goes into the context as it is, unless it is missing or nothing. -/
inductive AsIs : Option Value → List Value → Prop where
  | absent : AsIs none []
  | nothing : AsIs (some .none) []
  | value {v : Value} (something : v ≠ .none) : AsIs (some v) [v]

inductive AsText : Option Value → List Value → Prop where
  | absent : AsText none []
  | nothing : AsText (some .none) []
  | text {v : Value} {s : List Char} (something : v ≠ .none) (plain : v.plain.outcome = .ok s) :
      AsText (some v) [.text (String.ofList s)]

inductive IfTrue : Option Value → List Value → Prop where
  | absent : IfTrue none []
  | untrue {v : Value} (empty : v.truth = false) : IfTrue (some v) []
  | value {v : Value} (holds : v.truth = true) : IfTrue (some v) [v]

def OwnEntries (argument : String → Option Value) :
    ErrorClass → List (String × Value) → Prop
  | .open, entries =>
    ∃ path, AsIs (argument "path") path ∧ entries = path.map (("path", ·))
  | .connect, entries =>
    ∃ address, AsText (argument "address") address ∧ entries = address.map (("address", ·))
  | .config, entries =>
    ∃ key value, IfTrue (argument "config_key") key ∧ AsText (argument "config_value") value ∧
      entries = key.map (("config_key", ·)) ++ value.map (("config_value", ·))
  | _, entries => entries = []

/-- An error of a class that was made with some arguments, and then added to. -/
structure Made (kind : ErrorClass) (a : Arguments) (first added : List (String × Value))
    (e : LogError) : Prop where
  kind_eq : e.kind = kind
  message : a.argument kind.parameters.1 "message" = some e.message
  code : kind.code? = some e.code ∨
    kind = .custom ∧ a.argument kind.parameters.1 "code" = some (.code e.code)
  severity : e.severity = if kind = .panic then .severity .fatal
    else (a.argument kind.parameters.1 "severity").getD (.severity .error)
  context : ∃ own named, OwnEntries (a.argument kind.parameters.1) kind own ∧
    Spells e.context named ∧ Overlaid (first ++ extras kind a ++ own ++ added) named

section

variable {kind : ErrorClass} {a : Arguments} {first left own added : List (String × Value)}
  {e : LogError} {argument : String → Option Value} {c v : Option Value} {key : String}

theorem initialContext_eq (h : Initial c first) :
    (first.map (·.1)).Nodup ∧
      ∃ es, initialContext (c.getD .none) = pure es ∧ Spells es first := by
  cases h with
  | absent => exact ⟨List.nodup_nil, [], rfl, .nil⟩
  | nothing => exact ⟨List.nodup_nil, [], rfl, .nil⟩
  | @mapping v es named entries spelled distinct =>
    refine ⟨distinct, es, ?_, spelled⟩
    have htruth : v.truth = !es.isEmpty := by
      cases v <;> cases entries <;> rfl
    rw [Option.getD_some, initialContext, htruth, entries]
    cases es <;> rfl

theorem plain_ensures (v : Value) : Ensures (fun s => v.plain.outcome = .ok s) v.plain := by
  intro k s hs
  rwa [(Value.plain_steady v).same k] at hs

theorem textEntry_ensures (key : String) (v : Option Value) :
    Ensures (fun entries => ∃ value, AsText v value ∧ entries = value.map ((key, ·)))
      (textEntry key v) := by
  unfold textEntry
  split
  · exact ensures_pure ⟨[], .absent, rfl⟩
  · exact ensures_pure ⟨[], .nothing, rfl⟩
  · rename_i v hsomething
    refine (plain_ensures v).bind fun s hs => ?_
    exact ensures_pure ⟨_, .text hsomething hs, rfl⟩

theorem pathEntry_ensures (v : Option Value) :
    Ensures (fun entries => ∃ path, AsIs v path ∧ entries = path.map (("path", ·)))
      (ownEntries .open [v]) := by
  unfold ownEntries
  cases v with
  | none => exact ensures_pure ⟨[], .absent, rfl⟩
  | some v =>
    cases v with
    | none => exact ensures_pure ⟨[], .nothing, rfl⟩
    | _ => exact ensures_pure ⟨[_], .value nofun, rfl⟩

theorem configEntries_ensures (k v : Option Value) :
    Ensures (fun entries => ∃ key value, IfTrue k key ∧ AsText v value ∧
        entries = key.map (("config_key", ·)) ++ value.map (("config_value", ·)))
      (ownEntries .config [k, v]) := by
  unfold ownEntries
  refine (textEntry_ensures "config_value" v).bind fun shown hshown => ?_
  obtain ⟨value, hvalue, rfl⟩ := hshown
  cases k with
  | none => exact ensures_pure ⟨[], value, .absent, hvalue, rfl⟩
  | some k =>
    by_cases hk : k.truth = true
    · dsimp only
      rw [if_pos hk]
      exact ensures_pure ⟨[k], value, .value hk, hvalue, rfl⟩
    · dsimp only
      rw [if_neg hk]
      exact ensures_pure ⟨[], value, .untrue (Bool.eq_false_iff.mpr hk), hvalue, rfl⟩

theorem ownEntries_ensures (kind : ErrorClass) (argument : String → Option Value) :
    Ensures (OwnEntries argument kind)
      (ownEntries kind (kind.parameters.1.tail.map argument)) := by
  cases kind with
  | «open» => exact pathEntry_ensures (argument "path")
  | connect => exact textEntry_ensures "address" (argument "address")
  | config => exact configEntries_ensures (argument "config_key") (argument "config_value")
  | _ => exact ensures_pure rfl

theorem context_made (h : Initial c first) (written : List (String × Value)) :
    ∃ es, initialContext (c.getD .none) = pure es ∧
      ∃ named, Spells (overlay es written) named ∧ Overlaid (first ++ written) named := by
  obtain ⟨hdistinct, es, hinitial, hspells⟩ := initialContext_eq h
  exact ⟨es, hinitial, overlay_overlaid hspells (overlaid_self hdistinct) written⟩

theorem parameters_nodup (kind : ErrorClass) : kind.parameters.1.Nodup := by
  cases kind <;> decide

theorem parameters_eq (kind : ErrorClass) :
    kind.parameters.1 = "message" :: kind.parameters.1.tail := by
  cases kind <;> rfl

theorem general_not_own (hkind : kind ≠ .custom) :
    "code" ∉ kind.parameters.1 ∧ "severity" ∉ kind.parameters.1 ∧
      "context" ∉ kind.parameters.1 := by
  cases kind with
  | custom => exact absurd rfl hkind
  | _ => decide

theorem contains_false {l : List String} (h : key ∉ l) : (!l.contains key) = true := by
  simpa using h

theorem rest_eq (hcode : a.named.lookup "code" = none) :
    (a.named.filter fun n => !kind.parameters.1.contains n.1).filter
        (fun n => n.1 != "severity" && n.1 != "context") = extras kind a := by
  rw [List.filter_filter, extras]
  apply List.filter_congr
  intro n hn
  have hne : n.1 ≠ "code" := by
    have hother := List.lookup_eq_none_iff.mp hcode n hn
    intro h
    simp [h] at hother
  have hmessage : n.1 ∉ kind.parameters.1 → n.1 ≠ "message" := by
    intro hout h
    rw [parameters_eq, h] at hout
    exact hout List.mem_cons_self
  rw [Bool.eq_iff_iff]
  simp only [generalParameters, Bool.and_eq_true, Bool.not_eq_true', bne_iff_ne,
    List.contains_eq_mem, decide_eq_false_iff_not, List.mem_append, List.mem_cons,
    List.not_mem_nil, or_false, not_or]
  tauto

theorem makeOwn_ensures {code : ErrorCode} {message : Value} (hcode : kind.code? = some code)
    (hmessage : a.argument kind.parameters.1 "message" = some message)
    (hfirst : Initial (a.argument kind.parameters.1 "context") first) :
    Ensures (Made kind a first [])
      (makeOwn kind code message (kind.parameters.1.tail.map (a.argument kind.parameters.1))
        (a.named.filter fun n => !kind.parameters.1.contains n.1)) := by
  have hkind : kind ≠ .custom := by
    rintro rfl
    cases hcode
  obtain ⟨hcodeOut, hseverityOut, hcontextOut⟩ := general_not_own hkind
  have hleft : ∀ {key : String}, key ∉ kind.parameters.1 →
      (a.named.filter fun n => !kind.parameters.1.contains n.1).lookup key =
        a.argument kind.parameters.1 key := by
    intro key hkey
    rw [Arguments.argument_other hkey]
    exact Arguments.lookup_filter (fun k => !kind.parameters.1.contains k) (contains_false hkey)
  unfold makeOwn
  refine (ownEntries_ensures kind _).bind fun own hown => ?_
  dsimp only [general]
  rw [hleft hcodeOut, hleft hseverityOut, hleft hcontextOut,
    Arguments.argument_other hcodeOut]
  split
  · exact ensures_throw _ _
  rename_i hnocode
  split
  · exact ensures_throw _ _
  have hcodeNone := Option.not_isSome_iff_eq_none.mp hnocode
  obtain ⟨es, hinitial, named, hspells, hwrites⟩ := context_made hfirst (extras kind a ++ own)
  rw [rest_eq hcodeNone, hinitial, pure_bind]
  rw [← List.append_assoc, ← List.append_nil (_ ++ own)] at hwrites
  exact ensures_pure ⟨rfl, hmessage, .inl hcode, rfl, own, named, hown, hspells, hwrites⟩

theorem custom_of_code? (h : kind.code? = none) : kind = .custom := by
  cases kind with
  | custom => rfl
  | _ => cases h

theorem makeCustom_ensures {message code : Value}
    (hmessage : a.argument ErrorClass.custom.parameters.1 "message" = some message)
    (hcode : a.argument ErrorClass.custom.parameters.1 "code" = some code)
    (hfirst : Initial (a.argument ErrorClass.custom.parameters.1 "context") first) :
    Ensures (Made .custom a first [])
      (makeCustom message code (a.argument ErrorClass.custom.parameters.1 "severity")
        (a.argument ErrorClass.custom.parameters.1 "context")
        (a.named.filter fun n => !ErrorClass.custom.parameters.1.contains n.1)) := by
  have hextras : (a.named.filter fun n => !ErrorClass.custom.parameters.1.contains n.1) =
      extras .custom a := by
    apply List.filter_congr
    intro n _
    rw [ErrorClass.parameters, generalParameters, List.contains_append, Bool.or_self]
  unfold makeCustom
  split
  · obtain ⟨es, hinitial, named, hspells, hwrites⟩ := context_made hfirst (extras .custom a)
    rw [hextras, hinitial, pure_bind]
    rw [← List.append_nil (_ ++ _), ← List.append_nil ((_ ++ _) ++ [])] at hwrites
    exact ensures_pure ⟨rfl, hmessage, .inr ⟨rfl, hcode⟩, rfl, [], named, rfl, hspells, hwrites⟩
  · exact ensures_throw _ _

/-- Whatever error comes of a call, it is the one that the arguments describe. -/
theorem make_ensures (hfirst : Initial (a.argument kind.parameters.1 "context") first) :
    Ensures (Made kind a first []) (make kind a) := by
  unfold make
  split
  · exact ensures_throw _ _
  split
  · exact ensures_throw _ _
  rename_i bound left hbind
  obtain ⟨hbound, rfl⟩ := Arguments.bind?_eq_some (parameters_nodup kind) hbind
  split
  · exact ensures_throw _ _
  split
  · rename_i code message own hcode hpresent
    rw [parameters_eq, List.map_cons, ← parameters_eq] at hbound
    obtain ⟨hmessage, rfl⟩ := List.cons.inj hbound
    exact makeOwn_ensures hcode hmessage.symm hfirst
  · rename_i message code severity context hcode hpresent
    obtain rfl := custom_of_code? hcode
    obtain ⟨hmessage, hrest⟩ := List.cons.inj hbound
    obtain ⟨hcustom, hrest⟩ := List.cons.inj hrest
    obtain ⟨hseverity, hrest⟩ := List.cons.inj hrest
    obtain ⟨hcontext, -⟩ := List.cons.inj hrest
    rw [hseverity, hcontext]
    exact makeCustom_ensures hmessage.symm hcustom.symm hfirst
  · exact ensures_throw _ _

theorem Made.add {adds : List (Value × Value)} (h : Made kind a first [] e)
    (hadds : Spells adds added) :
    ∃ context, adds.foldlM (fun e w => e.addContext w.1 w.2) e =
        pure { e with context := context } ∧
      Made kind a first added { e with context := context } := by
  obtain ⟨own, named, hown, hspells, hwrites⟩ := h.context
  rw [List.append_nil] at hwrites
  obtain ⟨context, named', hfold, hspells', hwrites'⟩ := addContext_overlaid hspells hwrites hadds
  exact ⟨context, hfold, h.kind_eq, h.message, h.code, h.severity, own, named', hown, hspells',
    hwrites'⟩

theorem Spells.lookup {entries : List (Value × Value)} {named : List (String × Value)}
    (h : Spells entries named) (key : String) :
    Value.lookup (.text key) entries = named.lookup key := by
  induction h with
  | nil => rfl
  | @cons e n entries named he hrest ih =>
    obtain ⟨k, v⟩ := e
    obtain ⟨other, v'⟩ := n
    obtain ⟨hk, rfl⟩ := he
    rw [Value.lookup, lookup_cons_eq, equals_of_spelled rfl hk, ih]
    by_cases hsame : key = other
    · rw [if_pos hsame, hsame, if_pos (beq_self_eq_true other)]
    · rw [if_neg hsame, if_neg (by simpa using Ne.symm hsame)]

/-- Every keyword that no parameter takes is in the context. -/
theorem Made.keeps (h : Made kind a first added e) {n : String × Value} (hn : n ∈ a.named)
    (hextra : n.1 ∉ generalParameters ++ kind.parameters.1) :
    (Value.lookup (.text n.1) e.context).isSome := by
  obtain ⟨own, named, -, hspells, hwrites⟩ := h.context
  have hmem : n ∈ extras kind a := List.mem_filter.mpr ⟨hn, contains_false hextra⟩
  have hwritten : n.1 ∈ (first ++ extras kind a ++ own ++ added).map (·.1) := by
    apply List.mem_map_of_mem
    simp only [List.mem_append]
    exact .inl (.inl (.inr hmem))
  rw [hspells.lookup]
  exact hwrites.isSome hwritten

/-- The text of an error is its code and its message. -/
theorem text_outcome (e : LogError) : e.text.outcome =
    e.message.plain.outcome.map fun m => e.code.code.toList ++ ':' :: ' ' :: m :=
  Render.outcome_map _ _

theorem report_eq (h : nameOf e.severity = pure (.text key)) : e.report =
    pure ⟨e.code.code, e.message, e.code.category, .text key, e.context⟩ := by
  rw [report, h]
  rfl

structure Told (kind : ErrorClass) (a : Arguments) (first added : List (String × Value))
    (e : LogError) : Prop where
  made : Made kind a first added e
  keeps : ∀ n ∈ a.named, n.1 ∉ generalParameters ++ kind.parameters.1 →
    (Value.lookup (.text n.1) e.context).isSome
  text : e.text.outcome =
    e.message.plain.outcome.map fun m => e.code.code.toList ++ ':' :: ' ' :: m
  report : ∀ s, e.severity = .severity s → e.report =
    pure ⟨e.code.code, e.message, e.code.category, .text s.name, e.context⟩

/-- An error that was made and added to tells what it was given, and adding to it changes nothing
but its context. -/
theorem context_faithful {adds : List (Value × Value)}
    (hmade : (make kind a).outcome = .ok e)
    (hfirst : Initial (a.argument kind.parameters.1 "context") first) (hadds : Spells adds added) :
    ∃ context, adds.foldlM (fun e w => e.addContext w.1 w.2) e =
        pure { e with context := context } ∧
      Told kind a first added { e with context := context } := by
  have hnew : Made kind a first [] e := make_ensures hfirst 0 e hmade
  obtain ⟨context, hfold, hadded⟩ := hnew.add hadds
  refine ⟨context, hfold, hadded, fun n hn => hadded.keeps hn, text_outcome _, ?_⟩
  intro s hs
  exact report_eq (congrArg nameOf hs)

end

def refusedSetting : Arguments :=
  ⟨[.text "Invalid log priority"],
    [("config_key", .text "priority"),
      ("context", .dict [(.text "user", .text "a"), (.text "config_key", .none)]),
      ("user", .text "b"), ("config_value", .bool true)]⟩

theorem refusedSetting_told : ∃ e, (make .config refusedSetting).outcome = .ok e ∧
    e.context = [(.text "user", .text "b"), (.text "config_key", .text "priority"),
      (.text "config_value", .text "True")] ∧
    ∃ context, [(Value.severity .error, .int 2), (.text "user", .none)].foldlM
        (fun e w => e.addContext w.1 w.2) e = pure { e with context := context } ∧
      Told .config refusedSetting [("user", .text "a"), ("config_key", .none)]
        [("error", .int 2), ("user", .none)] { e with context := context } := by
  have hfirst : Spells [(.text "user", .text "a"), (.text "config_key", .none)]
      [("user", .text "a"), ("config_key", .none)] :=
    .cons ⟨rfl, rfl⟩ (.cons ⟨rfl, rfl⟩ .nil)
  have hadds : Spells [(.severity .error, .int 2), (.text "user", .none)]
      [("error", .int 2), ("user", .none)] :=
    .cons ⟨rfl, rfl⟩ (.cons ⟨rfl, rfl⟩ .nil)
  have hinitial : Initial (refusedSetting.argument ErrorClass.config.parameters.1 "context")
      [("user", .text "a"), ("config_key", .none)] :=
    .mapping rfl hfirst (by decide)
  exact ⟨_, rfl, rfl, context_faithful rfl hinitial hadds⟩

end LogError

end LeveledLog
