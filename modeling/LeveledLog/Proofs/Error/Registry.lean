import LeveledLog.Error.Registry
import LeveledLog.Proofs.Run
import Mathlib.Data.List.Nodup
import Mathlib.Logic.Relation

/-!
Requests to the registry of error categories and codes. A request reads the two tables or adds to
them at their ends, so what is bound stays bound to the same object and every later request gets it.
Each code keeps the string that it was registered under and the registry's own category for the name
that it was first registered with, whatever categories later requests come with.
-/

namespace LeveledLog

namespace Registry

/-- A request to the registry. One for a code comes with a category object of the caller's. -/
inductive Query where
  | category (name : String)
  | code (code : String) (category : CategoryObject)
  | lookup (code : String)
  deriving DecidableEq, Repr

inductive Reply where
  | category (c : CategoryObject)
  | code (c : CodeObject)
  | unknown
  deriving DecidableEq, Repr

def answer (r : Registry) : Query → Registry × Reply
  | .category name => ((r.getCategory name).1, .category (r.getCategory name).2)
  | .code code k => ((r.getCode code k.name).1, .code (r.getCode code k.name).2)
  | .lookup code => (r, match r.lookupCode code with | some c => .code c | none => .unknown)

def calls : Machine Registry (Query × Reply) where
  Enabled r e := (r.answer e.1).2 = e.2
  next r e := (r.answer e.1).1

instance (r : Registry) (e : Query × Reply) : Decidable (calls.Enabled r e) :=
  inferInstanceAs (Decidable ((r.answer e.1).2 = e.2))

def addCategory (r : Registry) (name : String) : Registry :=
  { r with categories := r.categories ++ [(name, ⟨r.next, name⟩)], next := r.next + 1 }

def addCode (r : Registry) (code : String) (c : CategoryObject) : Registry :=
  { r with codes := r.codes ++ [(code, ⟨r.next, code, c⟩)], next := r.next + 1 }

/-- A single addition to the tables. A code is added with the registry's own category only. -/
inductive Adds : Registry → Registry → Prop where
  | category {r : Registry} {name : String} (new : r.categories.lookup name = none) :
      Adds r (r.addCategory name)
  | code {r : Registry} {code : String} {c : CategoryObject} (new : r.codes.lookup code = none)
      (own : r.categories.lookup c.name = some c) : Adds r (r.addCode code c)

inductive Bound (r : Registry) : Query → Reply → Prop where
  | category {name : String} {c : CategoryObject} (known : r.categories.lookup name = some c) :
      Bound r (.category name) (.category c)
  | code {code : String} {c : CodeObject} (known : r.codes.lookup code = some c)
      (k : CategoryObject) : Bound r (.code code k) (.code c)
  | lookup {code : String} {c : CodeObject} (known : r.codes.lookup code = some c) :
      Bound r (.lookup code) (.code c)

inductive Answers (r : Registry) : Query → Registry → Reply → Prop where
  | known {q : Query} {a : Reply} (bound : Bound r q a) : Answers r q r a
  | category {name : String} (new : r.categories.lookup name = none) :
      Answers r (.category name) (r.addCategory name) (.category ⟨r.next, name⟩)
  | code {code : String} {k c : CategoryObject} (new : r.codes.lookup code = none)
      (own : r.categories.lookup k.name = some c) :
      Answers r (.code code k) (r.addCode code c) (.code ⟨r.next, code, c⟩)
  | both {code : String} {k : CategoryObject} (new : r.codes.lookup code = none)
      (newCategory : r.categories.lookup k.name = none) :
      Answers r (.code code k) ((r.addCategory k.name).addCode code ⟨r.next, k.name⟩)
        (.code ⟨r.next + 1, code, ⟨r.next, k.name⟩⟩)
  | unknown {code : String} (new : r.codes.lookup code = none) :
      Answers r (.lookup code) r .unknown

def ids (r : Registry) : List Nat := r.categories.map (·.2.id) ++ r.codes.map (·.2.id)

/-- No name and no code is bound twice, every object carries what it is bound under, and a code's
category is the registry's own. Different entries have different objects. -/
structure WellBound (r : Registry) : Prop where
  names : (r.categories.map (·.1)).Nodup
  codes : (r.codes.map (·.1)).Nodup
  named : ∀ e ∈ r.categories, e.2.name = e.1
  coded : ∀ e ∈ r.codes, e.2.code = e.1 ∧
    r.categories.lookup e.2.category.name = some e.2.category
  distinct : r.ids.Nodup
  fresh : ∀ id ∈ r.ids, id < r.next

structure Extends (r r' : Registry) : Prop where
  categories : ∀ name c, r.categories.lookup name = some c → r'.categories.lookup name = some c
  codes : ∀ code c, r.codes.lookup code = some c → r'.codes.lookup code = some c

section

variable {α : Type} {l : List (String × α)} {key other : String} {v w : α}

theorem lookup_snoc_self (h : l.lookup key = none) : (l ++ [(key, v)]).lookup key = some v := by
  rw [List.lookup_append, h, List.lookup_cons_self]
  rfl

theorem lookup_snoc_of_some (h : l.lookup key = some v) :
    (l ++ [(other, w)]).lookup key = some v := by
  rw [List.lookup_append, h]
  rfl

theorem keys_snoc (hnew : l.lookup key = none) (h : (l.map (·.1)).Nodup) :
    ((l ++ [(key, v)]).map (·.1)).Nodup := by
  have habsent : key ∉ l.map (·.1) := by
    intro hmem
    obtain ⟨e, he, rfl⟩ := List.mem_map.mp hmem
    have hother := List.lookup_eq_none_iff.mp hnew e he
    simp at hother
  rw [List.map_append, List.map_singleton, ← List.concat_eq_append]
  exact h.concat habsent

end

section

variable {r r' r'' : Registry} {q : Query} {a b : Reply} {name code : String} {c : CategoryObject}

theorem Extends.refl (r : Registry) : Extends r r := ⟨fun _ _ h => h, fun _ _ h => h⟩

theorem Extends.trans (h : Extends r r') (h' : Extends r' r'') : Extends r r'' :=
  ⟨fun n c hc => h'.categories n c (h.categories n c hc),
    fun s c hc => h'.codes s c (h.codes s c hc)⟩

theorem Adds.extends (h : Adds r r') : Extends r r' := by
  cases h with
  | category => exact ⟨fun _ _ hc => lookup_snoc_of_some hc, fun _ _ hc => hc⟩
  | code => exact ⟨fun _ _ hc => hc, fun _ _ hc => lookup_snoc_of_some hc⟩

theorem addCategory_lookup (h : r.categories.lookup name = none) :
    (r.addCategory name).categories.lookup name = some ⟨r.next, name⟩ :=
  lookup_snoc_self h

theorem addCode_lookup (h : r.codes.lookup code = none) :
    (r.addCode code c).codes.lookup code = some ⟨r.next, code, c⟩ :=
  lookup_snoc_self h

theorem ids_addCategory (r : Registry) (name : String) :
    ((r.addCategory name).ids).Perm (r.next :: r.ids) := by
  unfold ids addCategory
  rw [List.map_append, List.map_singleton, List.append_assoc]
  exact List.perm_middle

theorem ids_addCode (r : Registry) (code : String) (c : CategoryObject) :
    ((r.addCode code c).ids).Perm (r.next :: r.ids) := by
  unfold ids addCode
  rw [List.map_append, List.map_singleton, ← List.append_assoc]
  exact List.perm_append_singleton _ _

/-- A new object takes the number that is next. -/
theorem WellBound.numbered (h : WellBound r) (hids : r'.ids.Perm (r.next :: r.ids))
    (hnext : r'.next = r.next + 1) : r'.ids.Nodup ∧ ∀ id ∈ r'.ids, id < r'.next := by
  have hnew : r.next ∉ r.ids := fun hmem => absurd (h.fresh _ hmem) (Nat.lt_irrefl _)
  refine ⟨hids.nodup_iff.mpr (List.nodup_cons.mpr ⟨hnew, h.distinct⟩), ?_⟩
  intro id hid
  rw [hnext]
  rcases List.mem_cons.mp (hids.mem_iff.mp hid) with rfl | hold
  · exact Nat.lt_succ_self _
  · exact Nat.lt_succ_of_lt (h.fresh id hold)

theorem WellBound.addCategory (h : WellBound r) (hnew : r.categories.lookup name = none) :
    WellBound (r.addCategory name) := by
  obtain ⟨hdistinct, hfresh⟩ := h.numbered (ids_addCategory r name) rfl
  refine ⟨keys_snoc hnew h.names, h.codes, ?_, ?_, hdistinct, hfresh⟩
  · intro e he
    rcases List.mem_append.mp he with hold | hlast
    · exact h.named e hold
    · rw [List.mem_singleton.mp hlast]
  · intro e he
    obtain ⟨hcode, hcategory⟩ := h.coded e he
    exact ⟨hcode, lookup_snoc_of_some hcategory⟩

theorem WellBound.addCode (h : WellBound r) (hnew : r.codes.lookup code = none)
    (hown : r.categories.lookup c.name = some c) : WellBound (r.addCode code c) := by
  obtain ⟨hdistinct, hfresh⟩ := h.numbered (ids_addCode r code c) rfl
  refine ⟨h.names, keys_snoc hnew h.codes, h.named, ?_, hdistinct, hfresh⟩
  intro e he
  rcases List.mem_append.mp he with hold | hlast
  · exact h.coded e hold
  · rw [List.mem_singleton.mp hlast]
    exact ⟨rfl, hown⟩

theorem Adds.wellBound (h : Adds r r') (hr : WellBound r) : WellBound r' := by
  cases h with
  | category new => exact hr.addCategory new
  | code new own => exact hr.addCode new own

theorem getCategory_known (h : r.categories.lookup name = some c) :
    r.getCategory name = (r, c) := by
  unfold getCategory
  rw [h]

theorem getCategory_new (h : r.categories.lookup name = none) :
    r.getCategory name = (r.addCategory name, ⟨r.next, name⟩) := by
  unfold getCategory
  rw [h]
  rfl

theorem getCategory_adds (r : Registry) (name : String) :
    Relation.ReflTransGen Adds r (r.getCategory name).1 := by
  cases h : r.categories.lookup name with
  | none =>
    rw [getCategory_new h]
    exact .single (.category h)
  | some c =>
    rw [getCategory_known h]

theorem getCode_known {c : CodeObject} (h : r.codes.lookup code = some c) (category : String) :
    r.getCode code category = (r, c) := by
  unfold getCode
  rw [h]

theorem getCode_new {category : String} (h : r.codes.lookup code = none)
    (hcategory : r.getCategory category = (r', c)) :
    r.getCode code category = (r'.addCode code c, ⟨r'.next, code, c⟩) := by
  unfold getCode
  rw [h]
  simp only [hcategory]
  rfl

/-- A request is answered in one of these ways. -/
theorem answers (r : Registry) (q : Query) : Answers r q (r.answer q).1 (r.answer q).2 := by
  cases q with
  | category name =>
    cases h : r.categories.lookup name with
    | none =>
      simp only [answer, getCategory_new h]
      exact .category h
    | some c =>
      simp only [answer, getCategory_known h]
      exact .known (.category h)
  | code code k =>
    cases h : r.codes.lookup code with
    | none =>
      cases hk : r.categories.lookup k.name with
      | none =>
        simp only [answer, getCode_new h (getCategory_new hk)]
        exact .both h hk
      | some c =>
        simp only [answer, getCode_new h (getCategory_known hk)]
        exact .code h hk
    | some c =>
      simp only [answer, getCode_known h]
      exact .known (.code h k)
  | lookup code =>
    cases h : r.codes.lookup code with
    | none =>
      simp only [answer, lookupCode, h]
      exact .unknown h
    | some c =>
      simp only [answer, lookupCode, h]
      exact .known (.lookup h)

theorem mem_of_lookup {α : Type} {l : List (String × α)} {key : String} {v : α}
    (h : l.lookup key = some v) : (key, v) ∈ l := by
  obtain ⟨before, rest, rfl, -⟩ := List.lookup_eq_some_iff.mp h
  exact List.mem_append_right _ List.mem_cons_self

theorem WellBound.name_eq (h : WellBound r) (hc : r.categories.lookup name = some c) :
    c.name = name :=
  h.named _ (mem_of_lookup hc)

theorem Answers.adds (h : Answers r q r' a) (hr : WellBound r) :
    Relation.ReflTransGen Adds r r' := by
  cases h with
  | known => exact .refl
  | @code code k c new own =>
    have hname : c.name = k.name := hr.name_eq own
    rw [← hname] at own
    exact .single (.code new own)
  | category new => exact .single (.category new)
  | both new newCategory =>
    have hfirst : Adds r _ := .category newCategory
    exact .tail (.single hfirst) (.code new (addCategory_lookup newCategory))
  | unknown => exact .refl

theorem wellBound_of_adds (h : Relation.ReflTransGen Adds r r') (hr : WellBound r) :
    WellBound r' := by
  induction h with
  | refl => exact hr
  | tail _ hstep ih => exact hstep.wellBound ih

theorem extends_of_adds (h : Relation.ReflTransGen Adds r r') : Extends r r' := by
  induction h with
  | refl => exact .refl r
  | tail _ hstep ih => exact ih.trans hstep.extends

theorem Bound.mono (h : Bound r q a) (hext : Extends r r') : Bound r' q a := by
  cases h with
  | category known => exact .category (hext.categories _ _ known)
  | code known k => exact .code (hext.codes _ _ known) k
  | lookup known => exact .lookup (hext.codes _ _ known)

theorem Bound.answer_eq (h : Bound r q a) : r.answer q = (r, a) := by
  cases h with
  | category known => simp only [answer, getCategory_known known]
  | code known k => simp only [answer, getCode_known known]
  | lookup known => simp only [answer, lookupCode, known]

/-- Afterwards the object of the reply is bound, unless the request looked for a code in vain. -/
theorem Answers.bound (h : Answers r q r' a) :
    Bound r' q a ∨ ∃ code, q = .lookup code ∧ a = .unknown ∧ r.codes.lookup code = none := by
  cases h with
  | known bound => exact .inl bound
  | category new => exact .inl (.category (addCategory_lookup new))
  | code new => exact .inl (.code (addCode_lookup new) _)
  | both new => exact .inl (.code (addCode_lookup (r := r.addCategory _) new) _)
  | unknown new => exact .inr ⟨_, rfl, rfl, new⟩

theorem Answers.first {k : CategoryObject} (h : Answers r (.code code k) r' a) (hr : WellBound r)
    (hnew : r.codes.lookup code = none) :
    ∃ c : CodeObject, a = .code c ∧ c.code = code ∧ c.category.name = k.name ∧
      r'.codes.lookup code = some c ∧ r'.categories.lookup k.name = some c.category := by
  cases h with
  | known bound =>
    cases bound with
    | code known =>
      rw [hnew] at known
      cases known
  | code new own => exact ⟨_, rfl, rfl, hr.name_eq own, addCode_lookup new, own⟩
  | both new newCategory =>
    exact ⟨_, rfl, rfl, rfl, addCode_lookup (r := r.addCategory _) new,
      addCategory_lookup newCategory⟩

end

theorem empty_wellBound : WellBound empty := by
  refine ⟨List.nodup_nil, List.nodup_nil, ?_, ?_, List.nodup_nil, ?_⟩ <;>
  · rintro e ⟨⟩

section

variable {r : Registry} {before rest log : List (Query × Reply)} {q : Query} {a b : Reply}

def afterCalls (log : List (Query × Reply)) : Registry := calls.after empty log

theorem step_keeps (r : Registry) (e : Query × Reply) (hr : WellBound r) :
    WellBound (calls.next r e) ∧ Extends r (calls.next r e) := by
  have hadds := (answers r e.1).adds hr
  exact ⟨wellBound_of_adds hadds hr, extends_of_adds hadds⟩

/-- Whatever is requested, the tables stay well bound, and what is bound stays bound. -/
theorem run_keeps (h : calls.Valid r log) (hr : WellBound r) :
    WellBound (calls.after r log) ∧ Extends r (calls.after r log) := by
  apply Machine.run_keeps (I := fun r' => WellBound r' ∧ Extends r r') _ h ⟨hr, .refl r⟩
  rintro r' e - ⟨hbound, hext⟩
  obtain ⟨hbound', hext'⟩ := step_keeps r' e hbound
  exact ⟨hbound', hext.trans hext'⟩

/-- All later requests for what is bound get the same object. -/
theorem reply_of_bound (h : calls.Valid r rest) (hr : WellBound r) (hb : Bound r q a)
    (hmem : (q, b) ∈ rest) : b = a := by
  obtain ⟨past, later, rfl⟩ := List.append_of_mem hmem
  obtain ⟨hpast, hreply, -⟩ := (calls.valid_append r past _).mp h
  have hlater := hb.mono (run_keeps hpast hr).2
  have hanswer : ((calls.after r past).answer q).2 = b := hreply
  rw [hlater.answer_eq] at hanswer
  exact hanswer.symm

structure Faithful (log : List (Query × Reply)) : Prop where
  wellBound : WellBound (afterCalls log)
  answered : ∀ before q a rest, log = before ++ (q, a) :: rest →
    Bound (afterCalls (before ++ [(q, a)])) q a ∨
      ∃ code, q = .lookup code ∧ a = .unknown ∧ (afterCalls before).codes.lookup code = none
  /-- What a request would get at one moment it gets at every later one. For a code that is bound
  this is so whatever category the request comes with. -/
  lasting : ∀ before rest q a, log = before ++ rest → Bound (afterCalls before) q a →
    Bound (afterCalls log) q a ∧ ∀ b, (q, b) ∈ rest → b = a
  firstCategory : ∀ before code k a rest, log = before ++ (.code code k, a) :: rest →
    (afterCalls before).codes.lookup code = none →
      ∃ c : CodeObject, a = .code c ∧ c.code = code ∧ c.category.name = k.name ∧
        (afterCalls log).codes.lookup code = some c ∧
        (afterCalls log).categories.lookup k.name = some c.category
  lookupAddsNothing : ∀ before code a rest, log = before ++ (.lookup code, a) :: rest →
    afterCalls (before ++ [(.lookup code, a)]) = afterCalls before
  knownAddsNothing : ∀ before code k a rest, log = before ++ (.code code k, a) :: rest →
    (afterCalls before).codes.lookup code ≠ none →
      afterCalls (before ++ [(.code code k, a)]) = afterCalls before

theorem afterCalls_snoc (before : List (Query × Reply)) (q : Query) (a : Reply) :
    afterCalls (before ++ [(q, a)]) = ((afterCalls before).answer q).1 :=
  Machine.after_snoc empty before (q, a)

theorem split_valid (h : calls.Valid empty (before ++ (q, a) :: rest)) :
    WellBound (afterCalls before) ∧
      Answers (afterCalls before) q (afterCalls (before ++ [(q, a)])) a ∧
      calls.Valid (afterCalls (before ++ [(q, a)])) rest := by
  obtain ⟨hbefore, hreply, hrest⟩ := (calls.valid_append empty before _).mp h
  have hanswers := answers (afterCalls before) q
  have hsame : ((afterCalls before).answer q).2 = a := hreply
  rw [hsame, ← afterCalls_snoc before q a] at hanswers
  refine ⟨(run_keeps hbefore empty_wellBound).1, hanswers, ?_⟩
  rw [afterCalls_snoc]
  exact hrest

theorem afterCalls_append (before rest : List (Query × Reply)) :
    afterCalls (before ++ rest) = calls.after (afterCalls before) rest :=
  calls.after_append empty before rest

theorem faithful (h : calls.Valid empty log) : Faithful log := by
  constructor
  case wellBound => exact (run_keeps h empty_wellBound).1
  case answered =>
    rintro before q a rest rfl
    obtain ⟨-, hanswers, -⟩ := split_valid h
    exact hanswers.bound
  case lasting =>
    rintro before rest q a rfl hbound
    obtain ⟨hbefore, hrest⟩ := (calls.valid_append empty before rest).mp h
    have hwell := (run_keeps hbefore empty_wellBound).1
    refine ⟨?_, fun b hb => reply_of_bound hrest hwell hbound hb⟩
    rw [afterCalls_append]
    exact hbound.mono (run_keeps hrest hwell).2
  case firstCategory =>
    rintro before code k a rest rfl hnew
    obtain ⟨hwell, hanswers, hrest⟩ := split_valid h
    obtain ⟨c, rfl, hcode, hname, hbound, hown⟩ := hanswers.first hwell hnew
    have hlater := (run_keeps hrest (wellBound_of_adds (hanswers.adds hwell) hwell)).2
    rw [← afterCalls_append, List.append_assoc, List.singleton_append] at hlater
    exact ⟨c, rfl, hcode, hname, hlater.codes code c hbound,
      hlater.categories k.name c.category hown⟩
  case lookupAddsNothing =>
    rintro before code a rest rfl
    rw [afterCalls_snoc]
    rfl
  case knownAddsNothing =>
    rintro before code k a rest rfl hknown
    obtain ⟨c, hc⟩ := Option.ne_none_iff_exists'.mp hknown
    rw [afterCalls_snoc, (Bound.code hc k).answer_eq]

end

end Registry

end LeveledLog
