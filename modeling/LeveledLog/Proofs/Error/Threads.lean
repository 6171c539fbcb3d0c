import LeveledLog.Proofs.Error.Registry
import LeveledLog.Update

/-!
Requests to the registry from threads. A thread holds the registry's lock for all of its request,
and a request for a new code takes two additions to the tables. Whatever the threads do, their
requests are answered as if they had been made one after the other.
-/

namespace LeveledLog

namespace Registry

/-- How far a thread is with a request. Once inside it holds the lock, until it is away again. -/
inductive Stage where
  | away
  | waiting (q : Query)
  | inside (q : Query)
  | filing (code : String) (k own : CategoryObject)
  | answered (q : Query) (a : Reply)
  deriving DecidableEq, Repr

structure Desk where
  registry : Registry
  holder : Option Nat
  stage : Nat → Stage

inductive Turn where
  | ask (t : Nat) (q : Query)
  | enter (t : Nat) (q : Query)
  | serve (t : Nat) (q : Query)
  | file (t : Nat) (code : String) (k own : CategoryObject)
  | leave (t : Nat) (q : Query) (a : Reply)
  deriving DecidableEq, Repr

def Stage.Within : Stage → Prop
  | away => False
  | waiting _ => False
  | _ => True

def Desk.opened : Desk := ⟨empty, none, fun _ => .away⟩

/-- The tables and the stage after a request is looked at. For a new code the category comes
first. -/
def serve (r : Registry) : Query → Registry × Stage
  | .code code k =>
    match r.codes.lookup code with
    | some c => (r, .answered (.code code k) (.code c))
    | none => ((r.getCategory k.name).1, .filing code k (r.getCategory k.name).2)
  | q => ((r.answer q).1, .answered q (r.answer q).2)

def desk : Machine Desk Turn where
  Enabled d
    | .ask t _ => d.stage t = .away
    | .enter t q => d.stage t = .waiting q ∧ d.holder = none
    | .serve t q => d.stage t = .inside q
    | .file t code k own => d.stage t = .filing code k own
    | .leave t q a => d.stage t = .answered q a
  next d
    | .ask t q => { d with stage := update d.stage t (.waiting q) }
    | .enter t q => { d with holder := some t, stage := update d.stage t (.inside q) }
    | .serve t q =>
      { d with
        registry := (serve d.registry q).1
        stage := update d.stage t (serve d.registry q).2 }
    | .file t code k own =>
      { d with
        registry := d.registry.addCode code own
        stage := update d.stage t
          (.answered (.code code k) (.code ⟨d.registry.next, code, own⟩)) }
    | .leave t _ _ => { d with holder := none, stage := update d.stage t .away }

instance (d : Desk) (e : Turn) : Decidable (desk.Enabled d e) :=
  match e with
  | .ask t _ => inferInstanceAs (Decidable (d.stage t = .away))
  | .enter t q => inferInstanceAs (Decidable (d.stage t = .waiting q ∧ d.holder = none))
  | .serve t q => inferInstanceAs (Decidable (d.stage t = .inside q))
  | .file t code k own => inferInstanceAs (Decidable (d.stage t = .filing code k own))
  | .leave t q a => inferInstanceAs (Decidable (d.stage t = .answered q a))

def Stage.reply : Stage → List (Query × Reply)
  | answered q a => [(q, a)]
  | _ => []

def replies (d : Desk) : Turn → List (Query × Reply)
  | .serve _ q => (serve d.registry q).2.reply
  | .file _ code k own => [(.code code k, .code ⟨d.registry.next, code, own⟩)]
  | _ => []

inductive Serves (r : Registry) : Query → Registry → Stage → Prop where
  | whole {q : Query} {r' : Registry} {a : Reply} (answered : r.answer q = (r', a)) :
      Serves r q r' (.answered q a)
  | begun {code : String} {k own : CategoryObject} {r' : Registry}
      (new : r.codes.lookup code = none) (category : r.getCategory k.name = (r', own)) :
      Serves r (.code code k) r' (.filing code k own)

/-- The tables that go with the stage of the thread that holds the lock. While it files a code, the
category that it has looked up may be new. -/
def Stage.Agrees (r : Registry) (log : List (Query × Reply)) : Stage → Prop
  | filing code k own =>
    (afterCalls log).codes.lookup code = none ∧
      (afterCalls log).getCategory k.name = (r, own)
  | answered q a => r = afterCalls log ∧ (q, a) ∈ log
  | _ => r = afterCalls log

/-- The tables are those after the requests that were answered, one after the other. -/
structure InStep (d : Desk) (log : List (Query × Reply)) : Prop where
  served : calls.Valid empty log
  free : d.holder = none → d.registry = afterCalls log
  held : ∀ t, d.holder = some t → (d.stage t).Agrees d.registry log
  locked : ∀ t, (d.stage t).Within ↔ d.holder = some t

structure Orderly (d : Desk) (log : List (Query × Reply)) : Prop where
  served : calls.Valid empty log
  faithful : Faithful log
  wellBound : WellBound d.registry
  kept : Extends (afterCalls log) d.registry
  tables : d.registry = afterCalls log ∨
    ∃ t code k own, d.stage t = .filing code k own ∧
      (afterCalls log).codes.lookup code = none ∧
      (afterCalls log).getCategory k.name = (d.registry, own)
  alone : ∀ t u, (d.stage t).Within → (d.stage u).Within → t = u
  told : ∀ t q a, d.stage t = .answered q a → (q, a) ∈ log

section

variable {d : Desk} {e : Turn} {log : List (Query × Reply)} {t u : Nat} {s : Stage} {r : Registry}
  {q : Query} {a : Reply}

theorem serves (r : Registry) (q : Query) : Serves r q (serve r q).1 (serve r q).2 := by
  cases q with
  | code code k =>
    cases h : r.codes.lookup code with
    | none =>
      simp only [serve, h]
      exact .begun h rfl
    | some c =>
      simp only [serve, h]
      exact .whole (Bound.code h k).answer_eq
  | category name => exact .whole rfl
  | lookup code => exact .whole rfl

theorem calls_snoc (h : calls.Valid empty log) (ha : ((afterCalls log).answer q).2 = a) :
    calls.Valid empty (log ++ [(q, a)]) :=
  Machine.valid_snoc.mpr ⟨h, ha⟩

theorem InStep.elsewhere (h : InStep d log) (ht : ¬(d.stage t).Within) (hu : d.holder = some u) :
    u ≠ t := by
  rintro rfl
  exact ht ((h.locked u).mpr hu)

theorem InStep.holder_eq (h : InStep d log) (ht : (d.stage t).Within) : d.holder = some t :=
  (h.locked t).mp ht

theorem locked_update {holder : Option Nat} (hself : s.Within ↔ holder = some t)
    (hothers : ∀ u, u ≠ t → ((d.stage u).Within ↔ holder = some u)) (u : Nat) :
    (update d.stage t s u).Within ↔ holder = some u := by
  by_cases hu : u = t
  · subst hu
    rw [update_same]
    exact hself
  · rw [update_other _ _ hu]
    exact hothers u hu

theorem InStep.locked_same (h : InStep d log) (hs : s.Within ↔ (d.stage t).Within) (u : Nat) :
    (update d.stage t s u).Within ↔ d.holder = some u :=
  locked_update (hs.trans (h.locked t)) (fun u _ => h.locked u) u

theorem inStep_ask (h : InStep d log) (ht : d.stage t = .away) (q : Query) :
    InStep { d with stage := update d.stage t (.waiting q) } log := by
  have houtside : ¬(d.stage t).Within := by
    rw [ht]
    exact id
  refine ⟨h.served, h.free, ?_, h.locked_same (iff_of_false id houtside)⟩
  intro u hu
  dsimp only at hu ⊢
  rw [update_other _ _ (h.elsewhere houtside hu)]
  exact h.held u hu

theorem inStep_enter (h : InStep d log) (hfree : d.holder = none) :
    InStep { d with holder := some t, stage := update d.stage t (.inside q) } log := by
  refine ⟨h.served, ?_, ?_, ?_⟩
  · rintro ⟨⟩
  · rintro u ⟨⟩
    dsimp only
    rw [update_same]
    exact h.free hfree
  · refine locked_update (iff_of_true trivial rfl) ?_
    intro u hu
    rw [h.locked u, hfree]
    refine iff_of_false nofun ?_
    rintro ⟨⟩
    exact hu rfl

theorem inStep_leave (h : InStep d log) (ht : d.stage t = .answered q a) :
    InStep { d with holder := none, stage := update d.stage t .away } log := by
  have hholder := h.holder_eq (t := t) (by rw [ht]; trivial)
  have hagrees := h.held t hholder
  rw [ht] at hagrees
  refine ⟨h.served, fun _ => hagrees.1, ?_, ?_⟩
  · rintro u ⟨⟩
  · refine locked_update (iff_of_false id nofun) ?_
    intro u hu
    refine iff_of_false ?_ nofun
    intro hwithin
    have hsame := (h.holder_eq hwithin).symm.trans hholder
    exact hu (Option.some.inj hsame)

theorem inStep_within (h : InStep d log) (ht : (d.stage t).Within) (hs : s.Within)
    {log' : List (Query × Reply)} (hserved : calls.Valid empty log') (hagrees : s.Agrees r log') :
    InStep { d with registry := r, stage := update d.stage t s } log' := by
  have hholder := h.holder_eq ht
  refine ⟨hserved, ?_, ?_, h.locked_same (iff_of_true hs ht)⟩
  · intro hfree
    rw [hholder] at hfree
    cases hfree
  · intro u hu
    obtain rfl : t = u := Option.some.inj (hholder.symm.trans hu)
    dsimp only
    rw [update_same]
    exact hagrees

theorem inStep_serve (h : InStep d log) (ht : d.stage t = .inside q) :
    InStep (desk.next d (.serve t q)) (log ++ replies d (.serve t q)) := by
  have hwithin : (d.stage t).Within := by
    rw [ht]
    trivial
  have htables := h.held t (h.holder_eq hwithin)
  rw [ht] at htables
  have htables : d.registry = afterCalls log := htables
  have hserves := serves d.registry q
  simp only [desk, replies]
  generalize (serve d.registry q).1 = r', (serve d.registry q).2 = s' at hserves
  cases hserves with
  | @whole q r' a answered =>
    rw [htables] at answered
    have hreply : ((afterCalls log).answer q).2 = a := congrArg Prod.snd answered
    have hafter : r' = afterCalls (log ++ [(q, a)]) := by
      rw [afterCalls_snoc, answered]
    exact inStep_within (s := .answered q a) h hwithin trivial (calls_snoc h.served hreply)
      ⟨hafter, List.mem_append_right _ List.mem_cons_self⟩
  | @begun code k own r' new category =>
    rw [htables] at new category
    have hnone : (Stage.filing code k own).reply = [] := rfl
    rw [hnone, List.append_nil]
    exact inStep_within (s := .filing code k own) h hwithin trivial h.served ⟨new, category⟩

theorem inStep_file {code : String} {k own : CategoryObject} (h : InStep d log)
    (ht : d.stage t = .filing code k own) :
    InStep (desk.next d (.file t code k own)) (log ++ replies d (.file t code k own)) := by
  have hwithin : (d.stage t).Within := by
    rw [ht]
    trivial
  have hagrees := h.held t (h.holder_eq hwithin)
  rw [ht] at hagrees
  obtain ⟨hnew, hcategory⟩ := hagrees
  have hanswer : (afterCalls log).answer (.code code k) =
      (d.registry.addCode code own, .code ⟨d.registry.next, code, own⟩) := by
    simp only [answer, getCode_new hnew hcategory]
  have hafter : d.registry.addCode code own =
      afterCalls (log ++ [(.code code k, .code ⟨d.registry.next, code, own⟩)]) := by
    rw [afterCalls_snoc, hanswer]
  have hserved := calls_snoc h.served (congrArg Prod.snd hanswer)
  exact inStep_within (s := .answered _ _) h hwithin trivial hserved
    ⟨hafter, List.mem_append_right _ List.mem_cons_self⟩

/-- A turn keeps the tables in step with the requests answered so far. -/
theorem inStep_next (h : InStep d log) (he : desk.Enabled d e) :
    InStep (desk.next d e) (log ++ replies d e) := by
  have hnone : log ++ [] = log := List.append_nil log
  cases e with
  | ask t q => exact hnone.symm ▸ inStep_ask h he q
  | enter t q => exact hnone.symm ▸ inStep_enter h he.2
  | serve t q => exact inStep_serve h he
  | file t code k own => exact inStep_file h he
  | leave t q a => exact hnone.symm ▸ inStep_leave h he

theorem inStep_opened : InStep Desk.opened [] := by
  refine ⟨trivial, fun _ => rfl, ?_, fun t => iff_of_false id nofun⟩
  rintro t ⟨⟩

theorem run_inStep {es : List Turn} (h : desk.Valid Desk.opened es) :
    InStep (desk.after Desk.opened es) (desk.history replies Desk.opened es) :=
  Machine.history_induction inStep_opened (fun _ _ _ he ih => inStep_next ih he) h

/-- The tables are ahead of the answers by one category at most, while a code is filed under it. -/
theorem InStep.tables (h : InStep d log) : d.registry = afterCalls log ∨
    ∃ t code k own, d.stage t = .filing code k own ∧
      (afterCalls log).codes.lookup code = none ∧
      (afterCalls log).getCategory k.name = (d.registry, own) := by
  cases hholder : d.holder with
  | none => exact .inl (h.free hholder)
  | some t =>
    have hagrees := h.held t hholder
    cases hstage : d.stage t with
    | filing code k own =>
      rw [hstage] at hagrees
      exact .inr ⟨t, code, k, own, hstage, hagrees⟩
    | answered q a =>
      rw [hstage] at hagrees
      exact .inl hagrees.1
    | _ =>
      rw [hstage] at hagrees
      exact .inl hagrees

theorem InStep.told (h : InStep d log) (ht : d.stage t = .answered q a) : (q, a) ∈ log := by
  have hagrees := h.held t (h.holder_eq (by rw [ht]; trivial))
  rw [ht] at hagrees
  exact hagrees.2

theorem InStep.adds (h : InStep d log) :
    Relation.ReflTransGen Adds (afterCalls log) d.registry := by
  rcases h.tables with htables | ⟨t, code, k, own, -, -, hcategory⟩
  · rw [htables]
  · have hadds := getCategory_adds (afterCalls log) k.name
    rw [hcategory] at hadds
    exact hadds

/-- Whatever threads ask of the registry, and in whatever order they go on. -/
theorem threads_orderly {es : List Turn} (h : desk.Valid Desk.opened es) :
    Orderly (desk.after Desk.opened es) (desk.history replies Desk.opened es) := by
  have hstep := run_inStep h
  have hfaithful := faithful hstep.served
  refine ⟨hstep.served, hfaithful, wellBound_of_adds hstep.adds hfaithful.wellBound,
    extends_of_adds hstep.adds, hstep.tables, ?_, fun t q a => hstep.told⟩
  intro t u ht hu
  exact Option.some.inj ((hstep.holder_eq ht).symm.trans (hstep.holder_eq hu))

end

/-- Two threads register one code with different categories of their own; the second one waits for
the first and gets its object. -/
def contested : List Turn :=
  [.ask 0 (.code "E1" ⟨9, "Disk"⟩), .ask 1 (.code "E1" ⟨9, "Net"⟩),
    .enter 0 (.code "E1" ⟨9, "Disk"⟩),
    .ask 2 (.lookup "E1"), .serve 0 (.code "E1" ⟨9, "Disk"⟩),
    .file 0 "E1" ⟨9, "Disk"⟩ ⟨0, "Disk"⟩,
    .leave 0 (.code "E1" ⟨9, "Disk"⟩) (.code ⟨1, "E1", ⟨0, "Disk"⟩⟩),
    .enter 2 (.lookup "E1"), .serve 2 (.lookup "E1"),
    .leave 2 (.lookup "E1") (.code ⟨1, "E1", ⟨0, "Disk"⟩⟩),
    .enter 1 (.code "E1" ⟨9, "Net"⟩), .serve 1 (.code "E1" ⟨9, "Net"⟩)]

theorem contested_orderly : desk.Valid Desk.opened contested ∧
    Orderly (desk.after Desk.opened contested) (desk.history replies Desk.opened contested) ∧
    (desk.history replies Desk.opened contested).map (·.2) =
      List.replicate 3 (.code ⟨1, "E1", ⟨0, "Disk"⟩⟩) := by
  have hvalid : desk.Valid Desk.opened contested := by decide +kernel
  exact ⟨hvalid, threads_orderly hvalid, by decide +kernel⟩

end Registry

end LeveledLog
