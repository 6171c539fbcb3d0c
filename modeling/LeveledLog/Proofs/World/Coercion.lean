import LeveledLog.Proofs.World.Lockstep
import LeveledLog.World.Construct

/-!
From the values that a logger is asked for with to its options. A priority is the one whose rank
the value equals. A set of header options is the one whose bits the value equals, or the one that a
negative integer counts down to. Whatever a look at the values finds, no other options come of them.
-/

namespace LeveledLog

namespace Render

section

variable {α β : Type} {P : α → Prop} {Q : β → Prop} {r : Render α} {g : α → Render β}

/-- What a rendering comes to, if to anything, whatever was looked at before. -/
def Ensures (P : α → Prop) (r : Render α) : Prop := ∀ k a, (r.run.run k).1 = .ok a → P a

abbrev Fails (r : Render α) : Prop := Ensures (fun _ => False) r

theorem ensures_pure {a : α} (h : P a) : Ensures P (pure a) := by
  rintro k b ⟨⟩
  exact h

theorem ensures_throw (P : α → Prop) (f : Fault) : Ensures P (throw f) := by
  rintro k a ⟨⟩

theorem Ensures.bind (h : Ensures P r) (hg : ∀ a, P a → Ensures Q (g a)) :
    Ensures Q (r >>= g) := by
  intro k b
  rw [bind_run]
  rcases hr : r.run.run k with ⟨_ | a, n⟩
  · rintro ⟨⟩
  · exact hg a (h k a (congrArg Prod.fst hr)) n b

theorem ensures_bind (r : Render α) (hg : ∀ a, Ensures Q (g a)) : Ensures Q (r >>= g) := by
  have hr : Ensures (fun _ => True) r := fun _ _ _ => trivial
  exact hr.bind fun a _ => hg a

theorem Fails.bind (h : Fails r) (g : α → Render β) : Fails (r >>= g) :=
  Ensures.bind h fun _ => False.elim

theorem Fails.outcome (h : Fails r) : ∃ f, r.outcome = .error f := by
  cases hr : r.outcome with
  | error f => exact ⟨f, rfl⟩
  | ok a => exact (h 0 a hr).elim

end

end Render

open Render (Fails ensures_bind ensures_throw)

theorem Binary64.compareInt_unique {x : Binary64} {i j : Int} (hi : x.compareInt i = some .eq)
    (hj : x.compareInt j = some .eq) : i = j := by
  cases x with
  | nan => cases hi
  | infinite negative => cases negative <;> cases hi
  | finite negative m e =>
    have hden : (ratio m e).2 ≠ 0 := by
      unfold ratio scale
      cases e with
      | ofNat k => exact Nat.one_ne_zero
      | negSucc k => exact Nat.ne_of_gt (Nat.mul_pos Nat.one_pos (Nat.pow_pos Nat.two_pos))
    simp only [compareInt, Option.some.injEq, Std.compare_eq_iff_eq] at hi hj
    exact Int.eq_of_mul_eq_mul_right (Int.natCast_ne_zero.mpr hden) (hi.symm.trans hj)

theorem Value.equals_int_iff (v : Value) (i : Int) :
    v.equals (.int i) = true ↔
      v.int? = some i ∨ ∃ x, v = .float x ∧ x.compareInt i = some .eq := by
  cases v <;> simp [equals, numberEquals?, int?, text?, entries?]

theorem Value.equals_int_unique {v : Value} {i j : Int} (hi : v.equals (.int i) = true)
    (hj : v.equals (.int j) = true) : i = j := by
  rw [equals_int_iff] at hi hj
  rcases hi with hi | ⟨x, rfl, hi⟩
  · rcases hj with hj | ⟨x, rfl, -⟩
    · exact Option.some.inj (hi.symm.trans hj)
    · cases hi
  · rcases hj with hj | ⟨y, hy, hj⟩
    · cases hj
    · cases hy
      exact Binary64.compareInt_unique hi hj

/-- A value stands for the priority whose rank it equals. -/
def Priority.Stands (v : Value) (p : Priority) : Prop := v.equals (.int p.rank) = true

/-- A value stands for the set of header options whose bits it equals. A negative integer counts
down from a power of two. -/
inductive Flags.Stands (v : Value) (f : Flags) : Prop where
  | equal (same : v.equals (.int f.bits) = true)
  | down {i : Int} (integer : v.int? = some i) (negative : i < 0) (counted : f = ofInt i)

theorem Priority.Stands.unique {v : Value} {p q : Priority} (hp : Stands v p) (hq : Stands v q) :
    p = q := by
  have hrank : p.rank = q.rank := Int.ofNat.inj (Value.equals_int_unique hp hq)
  cases p <;> cases q <;> first | rfl | cases hrank

theorem Flags.Stands.unique {v : Value} {f g : Flags} (hf : Stands v f) (hg : Stands v g) :
    f = g := by
  have hcounted : ∀ {h : Flags} {i : Int}, v.int? = some i → i < 0 →
      v.equals (.int h.bits) ≠ true := by
    intro h i hi hnegative hsame
    have hequal := Value.equals_int_unique hsame ((v.equals_int_iff i).mpr (.inl hi))
    omega
  cases hf with
  | equal hsame =>
    cases hg with
    | equal hsame' =>
      have hbits : f.bits = g.bits := Int.ofNat.inj (Value.equals_int_unique hsame hsame')
      exact congrArg Flags.mk hbits
    | down hi hnegative => exact absurd hsame (hcounted hi hnegative)
  | down hi hnegative hf =>
    cases hg with
    | equal hsame => exact absurd hsame (hcounted hi hnegative)
    | down hj _ hg =>
      rw [hf, hg, Option.some.inj (hi.symm.trans hj)]

theorem Priority.stands_self (p : Priority) : Stands (.priority p) p :=
  (Value.equals_int_iff _ _).mpr (.inl rfl)

theorem Flags.stands_self (f : Flags) : Stands (.flags f) f :=
  .equal ((Value.equals_int_iff _ _).mpr (.inl rfl))

theorem Priority.ofValue_cases (v : Value) :
    (∃ p, ofValue v = pure p ∧ Stands v p) ∨ (Fails (ofValue v) ∧ ∀ p, ¬Stands v p) := by
  unfold ofValue
  split
  · rename_i p
    exact .inl ⟨p, rfl, stands_self p⟩
  · split
    · rename_i p hfound
      exact .inl ⟨p, rfl, List.find?_some (p := fun p : Priority => v.equals (.int p.rank)) hfound⟩
    · rename_i hnone
      refine .inr ⟨ensures_bind _ fun shown => ensures_throw _ _, fun p => ?_⟩
      exact List.find?_eq_none.mp hnone p (by cases p <;> decide)

theorem Flags.notFlags_fails (v : Value) : Fails (notFlags v) :=
  ensures_bind _ fun _ => ensures_bind _ fun _ => ensures_throw _ _

theorem Flags.ofFloat?_stands {made : List Nat} {x : Binary64} {f : Flags}
    (h : ofFloat? made x = some f) :
    Stands (.float x) f := by
  obtain ⟨n, hfound, rfl⟩ := Option.map_eq_some_iff.mp h
  have hequal : (x.compareInt n == some .eq) = true :=
    List.find?_some (p := fun n : Nat => x.compareInt n == some .eq) hfound
  exact .equal ((Value.equals_int_iff _ _).mpr (.inr ⟨x, rfl, beq_iff_eq.mp hequal⟩))

theorem Flags.ofInt_stands {v : Value} {i : Int} (h : v.int? = some i) : Stands v (ofInt i) := by
  by_cases hnegative : i < 0
  · exact .down h hnegative rfl
  · refine .equal ((Value.equals_int_iff _ _).mpr (.inl ?_))
    rw [h, ofInt, if_pos (Int.not_lt.mp hnegative)]
    exact congrArg some (Int.toNat_of_nonneg (Int.not_lt.mp hnegative)).symm

theorem Flags.ofValue_cases (made : List Nat) (v : Value) :
    (∃ f, ofValue made v = pure f ∧ Stands v f) ∨ Fails (ofValue made v) := by
  unfold ofValue
  split
  · rename_i f
    exact .inl ⟨f, rfl, stands_self f⟩
  · split
    · rename_i f hf
      exact .inl ⟨f, rfl, ofFloat?_stands hf⟩
    · exact .inr (notFlags_fails _)
  · split
    · exact .inr (notFlags_fails _)
    · rename_i i hi
      split
      · exact .inl ⟨_, rfl, ofInt_stands hi⟩
      · exact .inr (ensures_throw _ _)

theorem Flags.union_empty (f : Flags) : f.union empty = f :=
  congrArg Flags.mk (Nat.or_zero f.bits)

/-- Options as they were asked for. A destination may add header options of its own. -/
structure Granted (a : Wanted) (added : Flags) (o : Options) : Prop where
  threshold : Priority.Stands a.priority o.threshold
  flags : ∃ f, Flags.Stands a.flags f ∧ o.flags = f.union added
  linePrefix : o.linePrefix = a.linePrefix

/-- There is at most one way to grant what was asked for. -/
theorem Granted.unique {a : Wanted} {added : Flags} {o o' : Options} (h : Granted a added o)
    (h' : Granted a added o') : o = o' := by
  obtain ⟨f, hf, hflags⟩ := h.flags
  obtain ⟨g, hg, hflags'⟩ := h'.flags
  obtain ⟨p, fs, x⟩ := o
  obtain ⟨p', fs', x'⟩ := o'
  obtain rfl : p = p' := h.threshold.unique h'.threshold
  obtain rfl : x = x' := h.linePrefix.trans h'.linePrefix.symm
  obtain rfl : f = g := hf.unique hg
  obtain rfl : fs = fs' := hflags.trans hflags'.symm
  rfl

def Wanted.Acceptable (h : Host) (a : Wanted) : Prop :=
  (∃ p, Priority.Stands a.priority p) ∧ ∃ f, (Flags.ofValue h.made a.flags).outcome = .ok f

section

variable (h : Host) (a : Wanted)

theorem Wanted.options_cases :
    (∃ o, a.options h = pure o ∧ Granted a .empty o ∧ a.Acceptable h) ∨
      (Fails (a.options h) ∧ ¬a.Acceptable h) := by
  rcases Priority.ofValue_cases a.priority with ⟨p, hp, hrank⟩ | ⟨hpriority, hnone⟩
  · rcases Flags.ofValue_cases h.made a.flags with ⟨f, hf, hbits⟩ | hflags
    · refine .inl ⟨⟨p, f, a.linePrefix⟩, ?_, ⟨hrank, ⟨f, hbits, f.union_empty.symm⟩, rfl⟩, ?_⟩
      · rw [options, hp, hf]
        rfl
      · rw [Acceptable, hf]
        exact ⟨⟨p, hrank⟩, f, rfl⟩
    · refine .inr ⟨ensures_bind _ fun p => hflags.bind _, ?_⟩
      rintro ⟨-, f, hf⟩
      exact hflags 0 f hf
  · refine .inr ⟨hpriority.bind _, ?_⟩
    rintro ⟨⟨p, hp⟩, -⟩
    exact hnone p hp

theorem World.syslogFlags_cases (v : Value) :
    (∃ f, syslogFlags h v = pure (f.union (.single .syslog)) ∧ Flags.Stands v f) ∨
      Fails (syslogFlags h v) := by
  unfold syslogFlags
  rcases Flags.ofValue_cases h.made v with ⟨f, hf, hbits⟩ | hfails
  · rw [hf, pure_bind]
    dsimp only
    split
    · exact .inl ⟨f, rfl, hbits⟩
    · exact .inr (ensures_throw _ _)
  · exact .inr (hfails.bind _)

theorem World.syslogOptions_cases :
    (∃ o, syslogOptions h a = pure o ∧ Granted a (.single .syslog) o) ∨
      Fails (syslogOptions h a) := by
  unfold syslogOptions
  rcases syslogFlags_cases h a.flags with ⟨f, hf, hbits⟩ | hflags
  · rcases Priority.ofValue_cases a.priority with ⟨p, hp, hrank⟩ | ⟨hpriority, -⟩
    · refine .inl ⟨⟨p, f.union (.single .syslog), a.linePrefix⟩, ?_, hrank, ⟨f, hbits, rfl⟩, rfl⟩
      rw [hf, hp]
      rfl
    · exact .inr (ensures_bind _ fun f => hpriority.bind _)
  · exact .inr (hflags.bind _)

end

end LeveledLog
