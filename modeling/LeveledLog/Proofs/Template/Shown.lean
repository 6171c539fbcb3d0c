import LeveledLog.Value.Text

/-!
The shown form of data. All data can be shown but integers with more digits than the decimal
conversion takes, wherever in it they are; nothing of it counts the looks.
-/

namespace LeveledLog

namespace Render

variable {α β : Type}

theorem throw_bind (f : Fault) (g : α → Render β) : (throw f >>= g : Render β) = throw f := rfl

theorem map_throw (f : Fault) (g : α → β) : (g <$> (throw f : Render α)) = throw f := rfl

theorem catch_pure (a : α) (h : Fault → Render α) : tryCatch (pure a) h = pure a := rfl

theorem catch_throw (f : Fault) (h : Fault → Render α) : tryCatch (throw f) h = h f := rfl

/-- A rendering looks at nothing; it comes to a result if a condition holds and else to a fault. -/
def Settles (holds : Prop) (f : Fault) (r : Render α) : Prop :=
  (holds ∧ ∃ a, r = pure a) ∨ (¬holds ∧ r = throw f)

section

variable {p q : Prop} {f : Fault} {r : Render α} {g : α → Render β}

theorem settles_pure (f : Fault) (a : α) (hp : p) : Settles p f (pure a) := .inl ⟨hp, a, rfl⟩

theorem Settles.bind (h : Settles p f r) (hg : ∀ a, Settles q f (g a)) :
    Settles (p ∧ q) f (r >>= g) := by
  rcases h with ⟨hp, a, rfl⟩ | ⟨hp, rfl⟩
  · rw [pure_bind]
    rcases hg a with ⟨hq, b, hb⟩ | ⟨hq, hb⟩
    · exact .inl ⟨⟨hp, hq⟩, b, hb⟩
    · exact .inr ⟨fun hpq => hq hpq.2, hb⟩
  · exact .inr ⟨fun hpq => hp hpq.1, throw_bind f g⟩

theorem Settles.map (h : Settles p f r) (g : α → β) : Settles p f (g <$> r) := by
  rcases h with ⟨hp, a, rfl⟩ | ⟨hp, rfl⟩
  · exact .inl ⟨hp, g a, map_pure g a⟩
  · exact .inr ⟨hp, map_throw f g⟩

theorem Settles.of_iff (h : Settles p f r) (hpq : p ↔ q) : Settles q f r := by
  rcases h with ⟨hp, hr⟩ | ⟨hp, hr⟩
  · exact .inl ⟨hpq.mp hp, hr⟩
  · exact .inr ⟨fun hq => hp (hpq.mpr hq), hr⟩

end

end Render

open Render (Settles settles_pure)

namespace Value

/-- Data is made of nothing, truth values, numbers, texts and bytes by lists, tuples and mappings.
No part of it has a way to be shown of its own. -/
inductive IsData : Value → Prop where
  | none : IsData none
  | bool (b : Bool) : IsData (bool b)
  | int (i : Int) : IsData (int i)
  | float (x : Binary64) : IsData (float x)
  | text (s : String) : IsData (text s)
  | bytes (bs : List UInt8) : IsData (bytes bs)
  | list {xs : List Value} (elements : ∀ x ∈ xs, IsData x) : IsData (list xs)
  | tuple {xs : List Value} (elements : ∀ x ∈ xs, IsData x) : IsData (tuple xs)
  | dict {es : List (Value × Value)} (keys : ∀ e ∈ es, IsData e.1)
      (values : ∀ e ∈ es, IsData e.2) : IsData (dict es)

inductive Within (u : Value) : Value → Prop where
  | self : Within u u
  | list {xs : List Value} {x : Value} (element : x ∈ xs) (inner : Within u x) : Within u (list xs)
  | tuple {xs : List Value} {x : Value} (element : x ∈ xs) (inner : Within u x) :
      Within u (tuple xs)
  | key {es : List (Value × Value)} {e : Value × Value} (entry : e ∈ es) (inner : Within u e.1) :
      Within u (dict es)
  | value {es : List (Value × Value)} {e : Value × Value} (entry : e ∈ es)
      (inner : Within u e.2) : Within u (dict es)

/-- No integer in it has too many digits to be written in decimal. -/
def Showable (v : Value) : Prop :=
  ∀ i, Within (int i) v → i.natAbs < Nat.pow 10 Text.digitLimit

theorem showable_int (i : Int) : (int i).Showable ↔ i.natAbs < Nat.pow 10 Text.digitLimit := by
  constructor
  · intro h
    exact h i .self
  · rintro h _ ⟨⟩
    exact h

theorem showable_list (xs : List Value) : (list xs).Showable ↔ ∀ x ∈ xs, x.Showable := by
  constructor
  · intro h x hx i hi
    exact h i (.list hx hi)
  · rintro h i (_ | ⟨hx, hi⟩)
    exact h _ hx i hi

theorem showable_tuple (xs : List Value) : (tuple xs).Showable ↔ ∀ x ∈ xs, x.Showable := by
  constructor
  · intro h x hx i hi
    exact h i (.tuple hx hi)
  · rintro h i (_ | _ | ⟨hx, hi⟩)
    exact h _ hx i hi

theorem showable_dict (es : List (Value × Value)) :
    (dict es).Showable ↔ ∀ e ∈ es, e.1.Showable ∧ e.2.Showable := by
  constructor
  · intro h e he
    exact ⟨fun i hi => h i (.key he hi), fun i hi => h i (.value he hi)⟩
  · rintro h i (_ | _ | _ | ⟨he, hi⟩ | ⟨he, hi⟩)
    · exact (h _ he).1 i hi
    · exact (h _ he).2 i hi

/-! ### Showing -/

def parenthesized : List (List Char) → List Char
  | [p] => '(' :: p ++ [',', ')']
  | ps => '(' :: commas ps ++ [')']

theorem shown_text (s : String) : (text s).shown = pure (Text.quote s.toList) := rfl

theorem shown_list (xs : List Value) :
    (list xs).shown = (fun ps => '[' :: commas ps ++ [']']) <$> shownList xs := rfl

theorem shown_tuple (xs : List Value) : (tuple xs).shown = parenthesized <$> shownList xs := by
  have hshown : (tuple xs).shown = shownList xs >>= fun ps =>
      match ps with
      | [p] => pure ('(' :: p ++ [',', ')'])
      | ps => pure ('(' :: commas ps ++ [')']) := rfl
  rw [hshown, ← bind_pure_comp]
  refine bind_congr fun ps => ?_
  unfold parenthesized
  split
  · rfl
  · rfl

theorem shown_dict (es : List (Value × Value)) :
    (dict es).shown = (fun ps => '\x7b' :: commas ps ++ ['\x7d']) <$> shownEntries es := rfl

theorem shown_view (es : List (Value × Value)) :
    (view es).shown =
      (fun ps => "mappingproxy(".toList ++ '\x7b' :: commas ps ++ ['\x7d', ')']) <$>
        shownEntries es := rfl

theorem integerText_settles (i : Int) :
    Settles (i.natAbs < Nat.pow 10 Text.digitLimit) .numberTooLong (integerText i) := by
  unfold integerText Text.decimal?
  by_cases h : i.natAbs < Nat.pow 10 Text.digitLimit
  · rw [if_pos h]
    exact settles_pure _ _ h
  · rw [if_neg h]
    exact .inr ⟨h, rfl⟩

theorem shownList_settles {xs : List Value}
    (h : ∀ x ∈ xs, Settles x.Showable .numberTooLong x.shown) :
    Settles (∀ x ∈ xs, x.Showable) .numberTooLong (shownList xs) := by
  induction xs with
  | nil => exact settles_pure _ _ (fun x hx => absurd hx List.not_mem_nil)
  | cons x xs ih =>
    have hrest := ih fun y hy => h y (List.mem_cons_of_mem _ hy)
    have hcons := (h x (List.mem_cons_self ..)).bind fun p => hrest.map (p :: ·)
    refine Settles.of_iff ?_ List.forall_mem_cons.symm
    rw [shownList]
    simpa only [bind_pure_comp] using hcons

theorem shownEntries_settles {es : List (Value × Value)}
    (keys : ∀ e ∈ es, Settles e.1.Showable .numberTooLong e.1.shown)
    (values : ∀ e ∈ es, Settles e.2.Showable .numberTooLong e.2.shown) :
    Settles (∀ e ∈ es, e.1.Showable ∧ e.2.Showable) .numberTooLong (shownEntries es) := by
  induction es with
  | nil => exact settles_pure _ _ (fun e he => absurd he List.not_mem_nil)
  | cons e es ih =>
    obtain ⟨k, v⟩ := e
    have hrest := ih (fun e he => keys e (List.mem_cons_of_mem _ he))
      fun e he => values e (List.mem_cons_of_mem _ he)
    have hcons := (keys _ (List.mem_cons_self ..)).bind fun p =>
      (values _ (List.mem_cons_self ..)).bind fun q =>
        hrest.map ((p ++ ':' :: ' ' :: q) :: ·)
    have hiff : (k.Showable ∧ v.Showable ∧ ∀ e ∈ es, e.1.Showable ∧ e.2.Showable) ↔
        ∀ e ∈ (k, v) :: es, e.1.Showable ∧ e.2.Showable := by
      rw [List.forall_mem_cons, and_assoc]
    refine Settles.of_iff ?_ hiff
    rw [shownEntries]
    simpa only [bind_pure_comp] using hcons

/-- Data is shown unless an integer in it is too long. -/
theorem IsData.shown_settles {v : Value} (h : v.IsData) :
    Settles v.Showable .numberTooLong v.shown := by
  induction h with
  | none | bool _ | float _ | text _ | bytes _ =>
    refine settles_pure _ _ ?_
    rintro i ⟨⟩
  | int i => exact (integerText_settles i).of_iff (showable_int i).symm
  | list _ ih =>
    rw [shown_list]
    exact ((shownList_settles ih).map _).of_iff (showable_list _).symm
  | tuple _ ih =>
    rw [shown_tuple]
    exact ((shownList_settles ih).map _).of_iff (showable_tuple _).symm
  | dict _ _ ihkeys ihvalues =>
    rw [shown_dict]
    exact ((shownEntries_settles ihkeys ihvalues).map _).of_iff (showable_dict _).symm

end Value

end LeveledLog
