import Mathlib.Data.List.Induction

/-!
Runs of a machine: lists of events, each enabled when its turn comes. What a run leaves behind is
noted event by event, so a history is a list that only grows at its end. Nothing is said about
which events happen, or whether any does.
-/

namespace LeveledLog

structure Machine (State Event : Type) where
  Enabled : State → Event → Prop
  next : State → Event → State

namespace Machine

variable {State Event α : Type} (M : Machine State Event)

def after (s : State) : List Event → State
  | [] => s
  | e :: es => after (M.next s e) es

def Valid (s : State) : List Event → Prop
  | [] => True
  | e :: es => M.Enabled s e ∧ Valid (M.next s e) es

/-- What is noted at the events of a run, in order. -/
def history (note : State → Event → List α) (s : State) : List Event → List α
  | [] => []
  | e :: es => note s e ++ history note (M.next s e) es

instance [∀ s e, Decidable (M.Enabled s e)] (s : State) (es : List Event) :
    Decidable (M.Valid s es) := by
  induction es generalizing s with
  | nil => exact isTrue trivial
  | cons e es ih => exact instDecidableAnd

@[simp]
theorem after_append (s : State) (es fs : List Event) :
    M.after s (es ++ fs) = M.after (M.after s es) fs := by
  induction es generalizing s with
  | nil => rfl
  | cons e es ih => exact ih (M.next s e)

@[simp]
theorem valid_append (s : State) (es fs : List Event) :
    M.Valid s (es ++ fs) ↔ M.Valid s es ∧ M.Valid (M.after s es) fs := by
  induction es generalizing s with
  | nil => simp [Valid, after]
  | cons e es ih => simp only [List.cons_append, Valid, after, ih, and_assoc]

@[simp]
theorem history_append (note : State → Event → List α) (s : State) (es fs : List Event) :
    M.history note s (es ++ fs) =
      M.history note s es ++ M.history note (M.after s es) fs := by
  induction es generalizing s with
  | nil => rfl
  | cons e es ih => simp only [List.cons_append, history, after, ih, List.append_assoc]

theorem history_filter (keep : Event → Bool) (s : State) (es : List Event) :
    M.history (fun _ e => if keep e then [e] else []) s es = es.filter keep := by
  induction es generalizing s with
  | nil => rfl
  | cons e es ih =>
    rw [history, ih, List.filter_cons]
    split <;> rfl

theorem history_forall {note : State → Event → List α} {P : α → Prop}
    (noted : ∀ s e, ∀ a ∈ note s e, P a) (s : State) (es : List Event) :
    ∀ a ∈ M.history note s es, P a := by
  induction es generalizing s with
  | nil => simp [history]
  | cons e es ih =>
    intro a ha
    rcases List.mem_append.mp ha with ha | ha
    · exact noted s e a ha
    · exact ih _ a ha

/-- Each entry of a history was noted at an event of the run, after the entries of what was
before. -/
theorem history_getElem {note : State → Event → List α} {s : State} {es : List Event} {k : Nat}
    {a : α} (h : (M.history note s es)[k]? = some a) :
    ∃ before e rest j, es = before ++ e :: rest ∧ k = (M.history note s before).length + j ∧
      (note (M.after s before) e)[j]? = some a := by
  induction es generalizing s k with
  | nil => simp [history] at h
  | cons e es ih =>
    rw [history] at h
    by_cases hk : k < (note s e).length
    · rw [List.getElem?_append_left hk] at h
      exact ⟨[], e, es, k, rfl, (Nat.zero_add k).symm, h⟩
    · rw [List.getElem?_append_right (Nat.le_of_not_lt hk)] at h
      obtain ⟨before, e', rest, j, rfl, hj, ha⟩ := ih h
      refine ⟨e :: before, e', rest, j, rfl, ?_, ha⟩
      rw [history, List.length_append]
      omega

variable {M}

theorem valid_snoc {s : State} {es : List Event} {e : Event} :
    M.Valid s (es ++ [e]) ↔ M.Valid s es ∧ M.Enabled (M.after s es) e := by
  simp [Valid]

theorem after_snoc (s : State) (es : List Event) (e : Event) :
    M.after s (es ++ [e]) = M.next (M.after s es) e :=
  M.after_append s es [e]

theorem history_snoc (note : State → Event → List α) (s : State) (es : List Event) (e : Event) :
    M.history note s (es ++ [e]) = M.history note s es ++ note (M.after s es) e := by
  rw [history_append]
  exact congrArg _ (List.append_nil _)

section

variable (s : State) (before past : List Event) (x e : Event)

/-- One event more, when what has happened is told from an event `x` on. -/
theorem snoc_since : before ++ x :: (past ++ [e]) = (before ++ x :: past) ++ [e] :=
  (List.append_assoc before (x :: past) [e]).symm

theorem after_since : M.after s (before ++ x :: (past ++ [e])) =
    M.next (M.after s (before ++ x :: past)) e := by
  rw [snoc_since, after_snoc]

theorem history_since (note : State → Event → List α) :
    M.history note s (before ++ x :: (past ++ [e])) =
      M.history note s (before ++ x :: past) ++ note (M.after s (before ++ x :: past)) e := by
  rw [snoc_since, history_snoc]

end

theorem run_induction {s : State} {motive : (es : List Event) → M.Valid s es → Prop}
    (nil : motive [] trivial)
    (snoc : ∀ es e (hes : M.Valid s es) (he : M.Enabled (M.after s es) e),
      motive es hes → motive (es ++ [e]) (valid_snoc.mpr ⟨hes, he⟩))
    (es : List Event) (h : M.Valid s es) : motive es h := by
  induction es using List.reverseRecOn with
  | nil => exact nil
  | append_singleton es e ih =>
    obtain ⟨hes, he⟩ := valid_snoc.mp h
    exact snoc es e hes he (ih hes)

theorem history_induction {note : State → Event → List α} {s : State}
    {I : State → List α → Prop} (nil : I s [])
    (snoc : ∀ es e, M.Valid s es → M.Enabled (M.after s es) e →
      I (M.after s es) (M.history note s es) →
      I (M.next (M.after s es) e) (M.history note s es ++ note (M.after s es) e))
    {es : List Event} (h : M.Valid s es) : I (M.after s es) (M.history note s es) := by
  induction es, h using run_induction with
  | nil => exact nil
  | snoc es e hes he ih =>
    have hstep := snoc es e hes he ih
    rw [after_append, history_append]
    simpa only [after, history, List.append_nil] using hstep

theorem run_keeps {I : State → Prop} (step : ∀ s e, M.Enabled s e → I s → I (M.next s e))
    {s : State} {es : List Event} (h : M.Valid s es) (hs : I s) : I (M.after s es) := by
  induction es generalizing s with
  | nil => exact hs
  | cons e es ih => exact ih h.2 (step s e h.1 hs)

section

variable {State' Event' : Type} {N : Machine State' Event'} {f : State → State'}
  {translate : State → Event → List Event'} {I : State → Prop} {Allowed : Event → Prop}

/-- If each event becomes a run of another machine between the images of its two states, each run
becomes one. -/
theorem run_simulated (keeps : ∀ s e, M.Enabled s e → I s → I (M.next s e))
    (step : ∀ s e, I s → Allowed e → M.Enabled s e →
      N.Valid (f s) (translate s e) ∧ N.after (f s) (translate s e) = f (M.next s e))
    {s : State} {es : List Event} (hs : I s) (h : M.Valid s es) (allowed : ∀ e ∈ es, Allowed e) :
    N.Valid (f s) (M.history translate s es) ∧
      N.after (f s) (M.history translate s es) = f (M.after s es) := by
  induction es generalizing s with
  | nil => exact ⟨trivial, rfl⟩
  | cons e es ih =>
    obtain ⟨hvalid, hafter⟩ := step s e hs (allowed e List.mem_cons_self) h.1
    obtain ⟨hrest, hend⟩ :=
      ih (keeps s e h.1 hs) h.2 fun e' he' => allowed e' (List.mem_cons_of_mem _ he')
    rw [history, valid_append, after_append, hafter]
    exact ⟨⟨hvalid, hrest⟩, hend⟩

theorem history_simulated (keeps : ∀ s e, M.Enabled s e → I s → I (M.next s e))
    (step : ∀ s e, I s → Allowed e → M.Enabled s e →
      N.after (f s) (translate s e) = f (M.next s e))
    {note : State → Event → List α} {image : State' → Event' → List α}
    (noted : ∀ s e, I s → Allowed e → M.Enabled s e →
      N.history image (f s) (translate s e) = note s e)
    {s : State} {es : List Event} (hs : I s) (h : M.Valid s es) (allowed : ∀ e ∈ es, Allowed e) :
    N.history image (f s) (M.history translate s es) = M.history note s es := by
  induction es generalizing s with
  | nil => rfl
  | cons e es ih =>
    have hallowed := allowed e List.mem_cons_self
    have hrest := ih (keeps s e h.1 hs) h.2 fun e' he' => allowed e' (List.mem_cons_of_mem _ he')
    rw [history, history_append, step s e hs hallowed h.1, noted s e hs hallowed h.1, hrest,
      history]

theorem run_translated {f : State → State} {translate : State → Event → List Event}
    (step : ∀ s e, Allowed e → M.Enabled s e →
      M.Valid (f s) (translate s e) ∧ M.after (f s) (translate s e) = f (M.next s e))
    {s : State} {es : List Event} (h : M.Valid s es) (allowed : ∀ e ∈ es, Allowed e) :
    M.Valid (f s) (M.history translate s es) ∧
      M.after (f s) (M.history translate s es) = f (M.after s es) :=
  run_simulated (I := fun _ => True) (fun _ _ _ _ => trivial) (fun s e _ => step s e) trivial h
    allowed

theorem history_translated {f : State → State} {translate : State → Event → List Event}
    (step : ∀ s e, Allowed e → M.Enabled s e →
      M.after (f s) (translate s e) = f (M.next s e))
    {note image : State → Event → List α}
    (noted : ∀ s e, Allowed e → M.Enabled s e →
      M.history image (f s) (translate s e) = note s e)
    {s : State} {es : List Event} (h : M.Valid s es) (allowed : ∀ e ∈ es, Allowed e) :
    M.history image (f s) (M.history translate s es) = M.history note s es :=
  history_simulated (I := fun _ => True) (fun _ _ _ _ => trivial) (fun s e _ => step s e)
    (fun s e _ => noted s e) trivial h allowed

end

end Machine

end LeveledLog
