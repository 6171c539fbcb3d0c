import LeveledLog.Message
import LeveledLog.Proofs.Template.Shown

/-!
What a format comes to with data as its arguments. It is filled in, or it is written in front of
the arguments. It fails in two ways only. One is a number that a directive has no room for: a size,
a character, an integer where a float is wanted, an infinity where an integer is wanted. The other
is an integer with too many digits in arguments that are to be written after the format.
-/

namespace LeveledLog

/-- A fault of a number or a size that there is no room for. It shows no mismatch of a format and
its arguments. -/
def Fault.Exceeds (f : Fault) : Prop := f.kind = .overflow ∨ f.kind = .other "MemoryError"

namespace Render

section

variable {α β : Type} {safe : Prop} {P : α → Prop} {Q : β → Prop} {r : Render α} {g : α → Render β}

/-- A rendering that looks at nothing and ends in a result, in a mismatch or, unless it is safe, in
a fault of something without room. -/
def Ends (safe : Prop) (P : α → Prop) (r : Render α) : Prop :=
  (∃ a, r = pure a ∧ P a) ∨
    ∃ f, r = throw f ∧ (f.kind.isMismatch = true ∨ f.Exceeds ∧ ¬safe)

theorem ends_pure {a : α} (h : P a) : Ends safe P (pure a) := .inl ⟨a, rfl, h⟩

theorem ends_mismatch {f : Fault} (h : f.kind.isMismatch = true) : Ends safe P (throw f) :=
  .inr ⟨f, rfl, .inl h⟩

theorem ends_exceeding {f : Fault} (h : f.Exceeds) (hsafe : ¬safe) : Ends safe P (throw f) :=
  .inr ⟨f, rfl, .inr ⟨h, hsafe⟩⟩

theorem Ends.bind (h : Ends safe P r) (hg : ∀ a, P a → Ends safe Q (g a)) :
    Ends safe Q (r >>= g) := by
  rcases h with ⟨a, rfl, ha⟩ | ⟨f, rfl, hf⟩
  · rw [pure_bind]
    exact hg a ha
  · exact .inr ⟨f, throw_bind f g, hf⟩

theorem Ends.map {g : α → β} (h : Ends safe P r) (hg : ∀ a, P a → Q (g a)) :
    Ends safe Q (g <$> r) := by
  rw [← bind_pure_comp]
  exact h.bind fun a ha => ends_pure (hg a ha)

theorem Settles.ends {p : Prop} {f : Fault} (h : Settles p f r) (hf : f.kind.isMismatch = true) :
    Ends safe (fun _ => True) r := by
  rcases h with ⟨-, a, rfl⟩ | ⟨-, rfl⟩
  · exact ends_pure trivial
  · exact ends_mismatch hf

end

end Render

open Render (Ends ends_pure ends_mismatch ends_exceeding)

namespace Template

/-- A directive has room for a value, whether the value is to be shown or is taken for a size. -/
structure Directive.Suits (room : Room) (d : Directive) (v : Value) : Prop where
  width : ∀ n, d.width = some (.given n) → n ≤ room.val
  takenWidth : d.width = some .taken → ∀ i, v.int? = some i → i.natAbs ≤ room.val
  precision : ∀ n, d.precision = some (.given n) → n ≤ digitBound
  takenPrecision : d.precision = some .taken → ∀ i, v.int? = some i → i.natAbs ≤ digitBound
  whole : ∀ c ∈ d.conversion, c ∈ ['d', 'i', 'u'] → ∀ negative, v ≠ .float (.infinite negative)
  floating : ∀ c ∈ d.conversion, c ∈ ['e', 'E', 'f', 'F', 'g', 'G'] →
    ∀ i, v.int? = some i → (Binary64.ofInt? i).isSome
  character : d.conversion = some 'c' → ∀ i, v.int? = some i → 0 ≤ i ∧ i < 0x110000

section

variable {safe : Prop} {v : Value}

theorem wholeNumber_ends (h : safe → ∀ negative, v ≠ .float (.infinite negative)) :
    Ends safe (fun _ => True) (wholeNumber v) := by
  unfold wholeNumber
  split
  · exact ends_mismatch rfl
  · exact ends_exceeding (.inl rfl) fun hsafe => h hsafe _ rfl
  · exact ends_pure trivial
  · split
    · exact ends_pure trivial
    · exact ends_mismatch rfl

theorem floatingNumber_ends (h : safe → ∀ i, v.int? = some i → (Binary64.ofInt? i).isSome) :
    Ends safe (fun _ => True) (floatingNumber v) := by
  unfold floatingNumber
  split
  · exact ends_pure trivial
  · split
    · exact ends_mismatch rfl
    · rename_i i hi
      split
      · exact ends_pure trivial
      · rename_i hnone
        refine ends_exceeding (.inl rfl) fun hsafe => ?_
        have hsome := h hsafe i hi
        rw [hnone] at hsome
        cases hsome

theorem character_ends (h : safe → ∀ i, v.int? = some i → 0 ≤ i ∧ i < 0x110000) :
    Ends safe (fun _ => True) (character v) := by
  unfold character
  split
  · split
    · exact ends_pure trivial
    · exact ends_mismatch rfl
  · split
    · exact ends_mismatch rfl
    · rename_i i hi
      split
      · exact ends_pure trivial
      · rename_i hnone
        refine ends_exceeding (.inl rfl) fun hsafe => ?_
        obtain ⟨hsign, hbound⟩ := h hsafe i hi
        have hsome : (CodePoint.ofNat? i.toNat).isSome := CodePoint.ofNat?_isSome.mpr (by omega)
        rw [pointOf, if_neg (by omega)] at hnone
        rw [hnone] at hsome
        cases hsome

def Roomy (safe : Prop) (precision : Option Nat) : Prop :=
  safe → ∀ n ∈ precision, n ≤ digitBound

theorem checkPrecision_ends {precision : Option Nat} (h : Roomy safe precision) :
    Ends safe (fun _ => True) (checkPrecision precision) := by
  unfold checkPrecision
  split
  · exact ends_pure trivial
  · rename_i n
    split
    · rename_i hlarge
      exact ends_exceeding (.inl rfl) fun hsafe => absurd (h hsafe n rfl) (by omega)
    · exact ends_pure trivial

theorem checkSize_ends {room : Room} {n : Nat} (h : safe → n ≤ room.val) :
    Ends safe (fun _ => True) (Value.checkSize room n) := by
  unfold Value.checkSize
  split
  · rename_i hlarge
    exact ends_exceeding (.inr rfl) fun hsafe => absurd (h hsafe) (by omega)
  · exact ends_pure trivial

theorem integerText_ends (i : Int) : Ends safe (fun _ => True) (Value.integerText i) :=
  (Value.integerText_settles i).ends rfl

theorem decimalField_ends {precision : Option Nat} (hp : Roomy safe precision)
    (hv : safe → ∀ negative, v ≠ .float (.infinite negative)) :
    Ends safe (fun _ => True) (decimalField precision v) :=
  (wholeNumber_ends hv).bind fun _ _ => (checkPrecision_ends hp).bind fun _ _ =>
    (integerText_ends _).bind fun _ _ => ends_pure trivial

theorem baseField_ends (base : Nat) (marker : List Char) (alternate : Bool)
    {precision : Option Nat} (hp : Roomy safe precision) :
    Ends safe (fun _ => True) (baseField base marker alternate precision v) := by
  unfold baseField
  split
  · exact ends_mismatch rfl
  · exact (checkPrecision_ends hp).bind fun _ _ => ends_pure trivial

theorem floatField_ends (form : Nat → Nat → Int → List Char) (precision : Option Nat)
    (hv : safe → ∀ i, v.int? = some i → (Binary64.ofInt? i).isSome) :
    Ends safe (fun _ => True) (floatField form precision v) :=
  (floatingNumber_ends hv).bind fun _ _ => ends_pure trivial

theorem plain_ends (hv : v.IsData) : Ends safe (fun _ => True) v.plain := by
  cases hv with
  | text s => exact ends_pure trivial
  | none => exact Value.IsData.none.shown_settles.ends rfl
  | bool b => exact (Value.IsData.bool b).shown_settles.ends rfl
  | int i => exact (Value.IsData.int i).shown_settles.ends rfl
  | float x => exact (Value.IsData.float x).shown_settles.ends rfl
  | bytes bs => exact (Value.IsData.bytes bs).shown_settles.ends rfl
  | list h => exact (Value.IsData.list h).shown_settles.ends rfl
  | tuple h => exact (Value.IsData.tuple h).shown_settles.ends rfl
  | dict hk hv => exact (Value.IsData.dict hk hv).shown_settles.ends rfl

/-- A conversion of data fails for want of room only with a value that its directive does not
suit. -/
theorem convert_ends {d : Directive} {letter : Char} (hletter : d.conversion = some letter)
    (alternate : Bool) {precision : Option Nat} (hp : Roomy safe precision) (hv : v.IsData)
    {room : Room} (suits : safe → d.Suits room v) :
    Ends safe (fun _ => True) (convert letter alternate precision v) := by
  have hshown : Ends safe (fun _ => True) v.shown := hv.shown_settles.ends rfl
  have hwhole : letter ∈ ['d', 'i', 'u'] → safe → ∀ negative, v ≠ .float (.infinite negative) :=
    fun hmem hsafe => (suits hsafe).whole letter hletter hmem
  have hfloating : letter ∈ ['e', 'E', 'f', 'F', 'g', 'G'] → safe →
      ∀ i, v.int? = some i → (Binary64.ofInt? i).isSome :=
    fun hmem hsafe => (suits hsafe).floating letter hletter hmem
  unfold convert
  split
  case h_1 => exact (plain_ends hv).map fun _ _ => trivial
  case h_2 => exact hshown.map fun _ _ => trivial
  case h_3 => exact (hshown.map (Q := fun _ => True) fun _ _ => trivial).map fun _ _ => trivial
  case h_4 | h_5 | h_6 => exact decimalField_ends hp (hwhole (by decide))
  case h_7 | h_8 => exact baseField_ends _ _ _ hp
  case h_9 => exact (baseField_ends _ _ _ hp).map fun _ _ => trivial
  case h_10 | h_12 | h_14 => exact floatField_ends _ _ (hfloating (by decide))
  case h_11 | h_13 | h_15 =>
    exact (floatField_ends _ _ (hfloating (by decide))).map fun _ _ => trivial
  case h_16 =>
    exact (character_ends fun hsafe => (suits hsafe).character hletter).map fun _ _ => trivial
  case h_17 => exact ends_mismatch rfl

end

/-! ### A directive -/

structure Supply.All (P : Value → Prop) (s : Supply) : Prop where
  pending : ∀ v ∈ s.pending, P v
  mapping : ∀ es ∈ s.mapping, ∀ e ∈ es, P e.2

section

variable {safe : Prop} {P : Value → Prop} {s : Supply} {room : Room}

theorem take_ends (h : s.All P) : Ends safe (fun r => P r.1 ∧ r.2.All P) s.take := by
  unfold Supply.take
  split
  · rename_i v rest hpending
    have hcons : ∀ u ∈ v :: rest, P u := hpending ▸ h.pending
    refine ends_pure ⟨hcons v (List.mem_cons_self ..), ?_, h.mapping⟩
    exact fun u hu => hcons u (List.mem_cons_of_mem _ hu)
  · exact ends_mismatch rfl

theorem lookup_mem {key v : Value} {es : List (Value × Value)}
    (h : Value.lookup key es = some v) : ∃ e ∈ es, e.2 = v := by
  induction es with
  | nil => cases h
  | cons e es ih =>
    obtain ⟨k, w⟩ := e
    rw [Value.lookup] at h
    split at h
    · exact ⟨(k, w), List.mem_cons_self .., Option.some.inj h⟩
    · obtain ⟨e, he, hv⟩ := ih h
      exact ⟨e, List.mem_cons_of_mem _ he, hv⟩

theorem select_ends (h : s.All P) (key : List Char) :
    Ends safe (fun s => s.All P) (s.select key) := by
  unfold Supply.select
  split
  · exact ends_mismatch rfl
  · rename_i entries hentries
    split
    · rename_i v hv
      obtain ⟨e, he, rfl⟩ := lookup_mem hv
      refine ends_pure ⟨fun u hu => ?_, h.mapping⟩
      obtain rfl := List.mem_singleton.mp hu
      exact h.mapping entries hentries e he
    · exact ends_mismatch rfl

theorem resolveWidth_ends {d : Directive} (h : s.All P) (suits : safe → ∀ v, P v → d.Suits room v)
    (hmet : safe → ∃ v, P v) :
    Ends safe (fun r => (safe → r.1.2 ≤ room.val) ∧ r.2.All P)
      (resolveWidth s d.width) := by
  cases hw : d.width with
  | none => exact ends_pure ⟨fun _ => Nat.zero_le _, h⟩
  | some size =>
    cases size with
    | given n =>
      refine ends_pure ⟨fun hsafe => ?_, h⟩
      obtain ⟨v, hv⟩ := hmet hsafe
      exact (suits hsafe v hv).width n hw
    | excessive => exact ends_mismatch rfl
    | taken =>
      refine (take_ends h).bind fun r hr => ?_
      obtain ⟨v, s'⟩ := r
      obtain ⟨hv, hs'⟩ := hr
      have hbound : safe → ∀ i, v.int? = some i → i.natAbs ≤ room.val :=
        fun hsafe => (suits hsafe v hv).takenWidth hw
      have htaken : Ends safe (fun w => safe → w.2 ≤ room.val) (takenWidth v) := by
        unfold takenWidth
        split
        · exact ends_mismatch rfl
        · rename_i i hi
          split
          · rename_i hrange
            refine ends_exceeding (.inl rfl) fun hsafe => ?_
            have hi' := hbound hsafe i hi
            have hroom := room.isLt
            simp only [widthBound, Nat.pow_eq] at hroom hrange
            omega
          · exact ends_pure fun hsafe => hbound hsafe i hi
      exact htaken.bind fun w hw' => ends_pure ⟨hw', hs'⟩

theorem resolvePrecision_ends {d : Directive} (h : s.All P)
    (suits : safe → ∀ v, P v → d.Suits room v) (hmet : safe → ∃ v, P v) :
    Ends safe (fun r => Roomy safe r.1 ∧ r.2.All P) (resolvePrecision s d.precision) := by
  cases hp : d.precision with
  | none =>
    refine ends_pure ⟨?_, h⟩
    rintro - n ⟨⟩
  | some size =>
    cases size with
    | given n =>
      refine ends_pure ⟨fun hsafe k hk => ?_, h⟩
      obtain rfl := Option.some.inj hk
      obtain ⟨v, hv⟩ := hmet hsafe
      exact (suits hsafe v hv).precision n hp
    | excessive => exact ends_mismatch rfl
    | taken =>
      refine (take_ends h).bind fun r hr => ?_
      obtain ⟨v, s'⟩ := r
      obtain ⟨hv, hs'⟩ := hr
      have hbound : safe → ∀ i, v.int? = some i → i.natAbs ≤ digitBound :=
        fun hsafe => (suits hsafe v hv).takenPrecision hp
      have htaken : Ends safe (fun n => Roomy safe (some n)) (takenPrecision v) := by
        unfold takenPrecision
        split
        · exact ends_mismatch rfl
        · rename_i i hi
          split
          · rename_i hrange
            refine ends_exceeding (.inl rfl) fun hsafe => ?_
            have hi' := hbound hsafe i hi
            simp only [digitBound, precisionBound] at hi' hrange
            omega
          · refine ends_pure fun hsafe n hn => ?_
            obtain rfl := Option.some.inj hn
            have hi' := hbound hsafe i hi
            omega
      exact htaken.bind fun n hn => ends_pure ⟨hn, hs'⟩

theorem directive_ends {d : Directive} (h : s.All P) (data : ∀ v, P v → v.IsData)
    (suits : safe → ∀ v, P v → d.Suits room v) (hmet : safe → ∃ v, P v) :
    Ends safe (fun r => r.2.All P) (d.render room s) := by
  unfold Directive.render
  extract_lets rest
  -- with or without a key, the same follows
  have hrest : ∀ s₁ : Supply, s₁.All P → Ends safe (fun r => r.2.All P) (rest s₁) := by
    intro s₁ h₁
    refine (resolveWidth_ends h₁ suits hmet).bind fun r₂ h₂ => ?_
    obtain ⟨⟨left, width⟩, s₂⟩ := r₂
    obtain ⟨hwidth, h₂⟩ := h₂
    refine (resolvePrecision_ends h₂ suits hmet).bind fun r₃ h₃ => ?_
    obtain ⟨precision, s₃⟩ := r₃
    obtain ⟨hprecision, h₃⟩ := h₃
    dsimp only
    split
    · exact ends_mismatch rfl
    · rename_i letter hletter
      refine (take_ends h₃).bind fun r₄ h₄ => ?_
      obtain ⟨v, s₄⟩ := r₄
      obtain ⟨hv, h₄⟩ := h₄
      have hsuits : safe → d.Suits room v := fun hsafe => suits hsafe v hv
      refine (convert_ends hletter _ hprecision (data v hv) hsuits).bind fun f _ => ?_
      exact (checkSize_ends hwidth).bind fun _ _ => ends_pure h₄
  split
  · exact (select_ends h _).bind hrest
  · exact (ends_pure h).bind hrest

/-- From left to right, each directive meets values that it suits. -/
theorem pieces_end {ps : List Piece} (h : s.All P) (data : ∀ v, P v → v.IsData)
    (suits : safe → ∀ d, .directive d ∈ ps → ∀ v, P v → d.Suits room v) (hmet : safe → ∃ v, P v) :
    Ends safe (fun _ => True) (renderPieces room ps s) := by
  induction ps generalizing s with
  | nil =>
    unfold renderPieces
    split
    · exact ends_mismatch rfl
    · exact ends_pure trivial
  | cons p ps ih =>
    have hrest : safe → ∀ d, .directive d ∈ ps → ∀ v, P v → d.Suits room v :=
      fun hsafe d hd => suits hsafe d (List.mem_cons_of_mem _ hd)
    cases p with
    | literal c => exact (ih h hrest).bind fun _ _ => ends_pure trivial
    | directive d =>
      have hd : safe → ∀ v, P v → d.Suits room v :=
        fun hsafe => suits hsafe d (List.mem_cons_self ..)
      refine (directive_ends h data hd hmet).bind fun r hr => ?_
      exact (ih hr hrest).bind fun _ _ => ends_pure trivial
    | openKey =>
      unfold renderPieces
      split
      · exact ends_mismatch rfl
      · exact ends_mismatch rfl

end

def Operands.values : Operands → List Value
  | .tuple values => values
  | .mapping m entries => m :: entries.map Prod.snd

theorem operands_supply (o : Operands) : o.supply.All (· ∈ o.values) := by
  cases o with
  | tuple values =>
    refine ⟨fun v hv => hv, ?_⟩
    rintro es ⟨⟩
  | mapping m entries =>
    refine ⟨fun v hv => ?_, ?_⟩
    · obtain rfl := List.mem_singleton.mp hv
      exact List.mem_cons_self ..
    · rintro es ⟨⟩ e he
      exact List.mem_cons_of_mem _ (List.mem_map_of_mem he)

def Suitable (room : Room) (template : List Char) (o : Operands) : Prop :=
  ∀ d, .directive d ∈ parse template → ∀ v ∈ o.values, d.Suits room v

theorem fill_ends (room : Room) (template : List Char) {o : Operands}
    (data : ∀ v ∈ o.values, v.IsData) (hmet : o.values ≠ []) :
    Ends (Suitable room template o) (fun _ => True) (fill room template o) :=
  pieces_end (operands_supply o) data id fun _ => List.exists_mem_of_ne_nil _ hmet

end Template

/-! ### A message -/

open Template

section

variable {room : Room} {s : String} {args : List Value}

inductive Comes (room : Room) (s : String) (args : List Value) :
    Render (List CodePoint) → Prop where
  /-- Without arguments it is left as it is. -/
  | plain (bare : args = []) : Comes room s args (pure (Text.points s.toList))
  | filled {out} (given : args ≠ []) (fills : fill room s.toList (operands args) = pure out) :
      Comes room s args (pure out)
  /-- What does not fit is written after the format. -/
  | listed {f shown} (given : args ≠ []) (misfit : fill room s.toList (operands args) = throw f)
      (mismatch : f.kind.isMismatch = true) (shows : (Value.tuple args).shown = pure shown) :
      Comes room s args (pure (Text.points (s.toList ++ ' ' :: shown)))
  /-- What does not fit has an integer that cannot be written. -/
  | tooLong {f i} (given : args ≠ []) (misfit : fill room s.toList (operands args) = throw f)
      (mismatch : f.kind.isMismatch = true) (inside : Value.Within (.int i) (.tuple args))
      (long : Nat.pow 10 Text.digitLimit ≤ i.natAbs) : Comes room s args (throw .numberTooLong)
  /-- There is no room for a number. -/
  | exceeds {f} (given : args ≠ []) (fails : fill room s.toList (operands args) = throw f)
      (large : f.Exceeds) : Comes room s args (throw f)

theorem operands_data (h : ∀ v ∈ args, v.IsData) : ∀ v ∈ (operands args).values, v.IsData := by
  unfold operands
  split
  · rename_i v
    split
    · rename_i e es hentries
      have hv := h v (List.mem_singleton_self v)
      intro u hu
      rcases List.mem_cons.mp hu with rfl | hu
      · exact hv
      · obtain ⟨entry, hentry, rfl⟩ := List.mem_map.mp hu
        cases hv with
        | dict keys values =>
          obtain rfl := Option.some.inj hentries
          exact values entry hentry
        | _ => cases hentries
    · exact h
  · exact h

theorem operands_values_ne_nil (h : args ≠ []) : (operands args).values ≠ [] := by
  unfold operands
  split
  · split
    · exact List.cons_ne_nil _ _
    · exact h
  · exact h

theorem message_plain (room : Room) (s : String) :
    message room (.text s) [] = pure (Text.points s.toList) := rfl

theorem message_filled {out : List CodePoint} (given : args ≠ [])
    (h : fill room s.toList (operands args) = pure out) :
    message room (.text s) args = pure out := by
  unfold message
  rw [if_neg (by simpa using given)]
  simp only [Value.plain, pure_bind, h, Render.catch_pure]

theorem message_failed {f : Fault} (given : args ≠ [])
    (h : fill room s.toList (operands args) = throw f) :
    message room (.text s) args =
      if f.kind.isMismatch then
        (fun shown => Text.points (s.toList ++ ' ' :: shown)) <$> (Value.tuple args).shown
      else throw f := by
  unfold message
  rw [if_neg (by simpa using given)]
  simp only [Value.plain, pure_bind, h, Render.catch_throw, listed, bind_pure_comp]

theorem not_mismatch_of_exceeds {f : Fault} (h : f.Exceeds) : f.kind.isMismatch = false := by
  rcases h with h | h <;> rw [h] <;> rfl

theorem tuple_data (h : ∀ v ∈ args, v.IsData) : (Value.tuple args).IsData := .tuple h

theorem not_showable {v : Value} (h : ¬v.Showable) :
    ∃ i, Value.Within (.int i) v ∧ Nat.pow 10 Text.digitLimit ≤ i.natAbs := by
  simpa [Value.Showable, -Nat.pow_eq] using h

theorem message_comes (h : ∀ v ∈ args, v.IsData) :
    Comes room s args (message room (.text s) args) := by
  by_cases given : args = []
  · subst given
    exact .plain rfl
  rcases fill_ends room s.toList (operands_data h) (operands_values_ne_nil given) with
    ⟨out, hout, -⟩ | ⟨f, hf, hkind⟩
  · rw [message_filled given hout]
    exact .filled given hout
  · rw [message_failed given hf]
    rcases hkind with mismatch | ⟨large, -⟩
    · rw [if_pos mismatch]
      rcases (tuple_data h).shown_settles with ⟨-, shown, hshown⟩ | ⟨hlong, hshown⟩
      · rw [hshown, map_pure]
        exact .listed given hf mismatch hshown
      · obtain ⟨i, inside, long⟩ := not_showable hlong
        rw [hshown, Render.map_throw]
        exact .tooLong given hf mismatch inside long
    · rw [not_mismatch_of_exceeds large]
      exact .exceeds given hf large

/-- With room for all numbers, a format always comes to a text. -/
theorem message_returns (h : ∀ v ∈ args, v.IsData) (showable : ∀ v ∈ args, v.Showable)
    (suitable : Suitable room s.toList (operands args)) :
    ∃ out, message room (.text s) args = pure out := by
  by_cases given : args = []
  · subst given
    exact ⟨_, message_plain room s⟩
  rcases fill_ends room s.toList (operands_data h) (operands_values_ne_nil given) with
    ⟨out, hout, -⟩ | ⟨f, hf, hkind⟩
  · exact ⟨out, message_filled given hout⟩
  · rcases hkind with mismatch | ⟨-, hunsuitable⟩
    · rw [message_failed given hf, if_pos mismatch]
      rcases (tuple_data h).shown_settles with ⟨-, shown, hshown⟩ | ⟨hlong, -⟩
      · exact ⟨_, by rw [hshown, map_pure]⟩
      · exact absurd ((Value.showable_tuple args).mpr showable) hlong
    · exact absurd suitable hunsuitable

end

end LeveledLog
