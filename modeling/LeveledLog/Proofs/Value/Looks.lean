import LeveledLog.Proofs.Template.Shown
import LeveledLog.Proofs.World.Coercion

/-!
Looks at values. What a look comes to does not depend on the looks before it. A look fails with what
the value itself raises, or with an integer that has too many digits.
-/

namespace LeveledLog

inductive Fault.OfLook : Fault → Prop where
  | scripted (k : FaultKind) : OfLook (.scripted k)
  | numberTooLong : OfLook .numberTooLong

namespace Render

section

variable {α β : Type} {F : Fault → Prop} {r : Render α} {a : α} {b : β} {g : α → Render β}

/-- A rendering that always comes to the same, and fails only with certain faults. -/
structure Steady (F : Fault → Prop) (r : Render α) : Prop where
  same : ∀ k, (r.run.run k).1 = r.outcome
  fails : ∀ f, r.outcome = .error f → F f

def Yields (r : Render α) (a : α) : Prop := ∀ k, (r.run.run k).1 = .ok a

theorem Steady.of_run {result : Except Fault α} (h : ∀ k, (r.run.run k).1 = result)
    (hf : ∀ f, result = .error f → F f) : Steady F r := by
  have houtcome : r.outcome = result := h 0
  subst houtcome
  exact ⟨h, hf⟩

theorem steady_pure (F : Fault → Prop) (a : α) : Steady F (pure a) := by
  apply Steady.of_run (fun k => rfl)
  rintro f ⟨⟩

theorem steady_throw {f : Fault} (h : F f) : Steady F (throw f : Render α) := by
  apply Steady.of_run (fun k => rfl)
  rintro g ⟨⟩
  exact h

theorem Steady.mono {G : Fault → Prop} (h : Steady F r) (hmono : ∀ f, F f → G f) : Steady G r :=
  ⟨h.same, fun f hf => hmono f (h.fails f hf)⟩

theorem Steady.run (h : Steady F r) (k : Nat) : ∃ n, r.run.run k = (r.outcome, n) :=
  ⟨(r.run.run k).2, Prod.ext (h.same k) rfl⟩

theorem Steady.bind (h : Steady F r) (hg : ∀ a, Steady F (g a)) : Steady F (r >>= g) := by
  have hsame : ∀ k, ((r >>= g).run.run k).1 = r.outcome.bind fun a => (g a).outcome := by
    intro k
    obtain ⟨n, hn⟩ := h.run k
    rw [bind_run, hn]
    cases r.outcome with
    | error f => rfl
    | ok a => exact (hg a).same n
  apply Steady.of_run hsame
  intro f hf
  cases hr : r.outcome with
  | error e =>
    rw [hr] at hf
    cases hf
    exact h.fails f hr
  | ok a =>
    rw [hr] at hf
    exact (hg a).fails f hf

theorem Steady.map {g : α → β} (h : Steady F r) : Steady F (g <$> r) := by
  rw [← bind_pure_comp]
  exact h.bind fun a => steady_pure F (g a)

theorem yields_pure (a : α) : Yields (pure a) a := fun _ => rfl

theorem Yields.bind (h : Yields r a) (hg : Yields (g a) b) : Yields (r >>= g) b := by
  intro k
  have hr := h k
  rw [bind_run]
  rcases hrun : r.run.run k with ⟨result, n⟩
  rw [hrun] at hr
  obtain rfl : result = .ok a := hr
  exact hg n

theorem catch_run (r : Render α) (g : Fault → Render α) (k : Nat) :
    (tryCatch r g).run.run k =
      match r.run.run k with
      | (.ok a, n) => (.ok a, n)
      | (.error f, n) => (g f).run.run n := by
  change ExceptT.run (ExceptT.tryCatch r g) k = _
  simp only [ExceptT.tryCatch, ExceptT.mk, ExceptT.run, Bind.bind, StateT.bind, StateT.run]
  rcases r k with ⟨_ | a, n⟩ <;> rfl

theorem Steady.catch {G : Fault → Prop} {g : Fault → Render α} (h : Steady F r)
    (hg : ∀ f, F f → Steady G (g f)) : Steady G (tryCatch r g) := by
  have hsame : ∀ k, ((tryCatch r g).run.run k).1 =
      r.outcome.tryCatch fun f => (g f).outcome := by
    intro k
    obtain ⟨n, hn⟩ := h.run k
    rw [catch_run, hn]
    cases hr : r.outcome with
    | ok a => rfl
    | error f => exact (hg f (h.fails f hr)).same n
  apply Steady.of_run hsame
  intro f hf
  cases hr : r.outcome with
  | ok a =>
    rw [hr] at hf
    cases hf
  | error e =>
    rw [hr] at hf
    exact (hg e (h.fails e hr)).fails f hf

theorem Steady.observe (h : Steady F r) : Yields r.observe r.outcome := by
  intro k
  obtain ⟨n, hn⟩ := h.run k
  rw [Render.observe, catch_run, ← bind_pure_comp, bind_run, hn]
  cases r.outcome <;> rfl

theorem Steady.caught {r : Render Fault} {f : Fault} (h : Steady F r)
    (hf : r.outcome = .ok f ∨ r.outcome = .error f) : Yields (tryCatch r pure) f := by
  intro k
  obtain ⟨n, hn⟩ := h.run k
  rw [catch_run, hn]
  rcases hf with hf | hf
  · rw [hf]
  · rw [hf]
    rfl

end

end Render

open Render (Steady steady_pure steady_throw)

namespace Value

theorem look_steady (result : Except FaultKind String) :
    Steady Fault.OfLook (Render.look result) := by
  cases result with
  | ok s =>
    refine ⟨fun k => rfl, ?_⟩
    rintro f ⟨⟩
  | error k =>
    refine ⟨fun n => rfl, ?_⟩
    rintro f ⟨⟩
    exact .scripted k

theorem integerText_steady (i : Int) : Steady Fault.OfLook (integerText i) := by
  unfold integerText
  split
  · exact steady_pure _ _
  · exact steady_throw .numberTooLong

mutual

/-- Showing a value comes to the same at every look. -/
theorem shown_steady : ∀ v : Value, Steady Fault.OfLook v.shown
  | none => steady_pure _ _
  | bool _ => steady_pure _ _
  | int i => integerText_steady i
  | float _ => steady_pure _ _
  | text _ => steady_pure _ _
  | bytes _ => steady_pure _ _
  | list xs => shown_list xs ▸ (shownList_steady xs).map
  | tuple xs => shown_tuple xs ▸ (shownList_steady xs).map
  | dict es => shown_dict es ▸ (shownEntries_steady es).map
  | view es => shown_view es ▸ (shownEntries_steady es).map
  | priority _ => steady_pure _ _
  | flags f => by
    unfold shown
    split
    · exact steady_pure _ _
    · exact steady_throw .numberTooLong
  | probe p => look_steady _
  | category _ => steady_pure _ _
  | code _ => steady_pure _ _
  | severity _ => steady_pure _ _

theorem shownList_steady : ∀ xs : List Value, Steady Fault.OfLook (shownList xs)
  | [] => steady_pure _ _
  | x :: xs => by
    rw [shownList]
    exact (shown_steady x).bind fun p => (shownList_steady xs).bind fun ps => steady_pure _ _

theorem shownEntries_steady : ∀ es : List (Value × Value), Steady Fault.OfLook (shownEntries es)
  | [] => steady_pure _ _
  | (k, v) :: es => by
    rw [shownEntries]
    exact (shown_steady k).bind fun p => (shown_steady v).bind fun q =>
      (shownEntries_steady es).bind fun ps => steady_pure _ _

end

theorem plain_steady (v : Value) : Steady Fault.OfLook v.plain := by
  cases v with
  | text | category | code | severity | priority => exact steady_pure _ _
  | probe => exact look_steady _
  | flags f => exact integerText_steady f.bits
  | view es => exact shown_steady (dict es)
  | _ => exact shown_steady _

end Value

inductive Fault.OfOptions : Fault → Prop where
  | look {f : Fault} (h : f.OfLook) : OfOptions f
  | notMember (shown set : String) : OfOptions (.notMember shown set)

theorem Fault.OfLook.ofOptions (f : Fault) (h : f.OfLook) : f.OfOptions := .look h

theorem Priority.ofValue_steady (v : Value) : Steady Fault.OfOptions (ofValue v) := by
  unfold ofValue
  split
  · exact steady_pure _ _
  · split
    · exact steady_pure _ _
    · exact (v.shown_steady.mono Fault.OfLook.ofOptions).bind fun shown =>
        steady_throw (.notMember _ _)

theorem Flags.notFlags_steady (v : Value) : Steady Fault.OfOptions (notFlags v) := by
  have hshown : Steady Fault.OfOptions v.shown := v.shown_steady.mono Fault.OfLook.ofOptions
  refine (hshown.catch fun f hf => ?_).bind fun _ => hshown.bind fun shown =>
    steady_throw (.notMember _ _)
  by_cases habrupt : f.isAbrupt = true
  · rw [if_pos habrupt]
    exact steady_throw hf
  · rw [if_neg habrupt]
    exact steady_pure _ _

theorem Flags.ofValue_steady (made : List Nat) (v : Value) :
    Steady Fault.OfOptions (ofValue made v) := by
  unfold ofValue
  split
  · exact steady_pure _ _
  · split
    · exact steady_pure _ _
    · exact notFlags_steady _
  · split
    · exact notFlags_steady _
    · split
      · exact steady_pure _ _
      · exact steady_throw (.look .numberTooLong)

theorem World.syslogOptions_steady (h : Host) (a : Wanted) :
    Steady Fault.OfOptions (syslogOptions h a) := by
  have hflags : Steady Fault.OfOptions (syslogFlags h a.flags) := by
    refine (Flags.ofValue_steady h.made a.flags).bind fun f => ?_
    dsimp only
    split
    · exact steady_pure _ _
    · exact steady_throw (.look .numberTooLong)
  exact hflags.bind fun f => (Priority.ofValue_steady a.priority).bind fun p => steady_pure _ _

end LeveledLog
