import LeveledLog.Proofs.Logger.Settling

/-!
How a call ends that is to end the program. It does end it if its message can be rendered and no
flush of a stream fails in another way than those that are passed over; it never returns. Otherwise
a fault comes out of it, and the program goes on. Which of the two it is depends on the call
alone, and not on the options, on other threads or on the destination. Without a worker the call
waits for good.
-/

namespace LeveledLog

def StreamState.Lenient : StreamState → Prop
  | .failing k => Logger.isSuppressed k = true
  | _ => True

namespace Logger

/-- How a call ends that is to end the program, given how it renders its message. -/
def parting (i : Invocation) (r : Render (List CodePoint)) : Outcome :=
  match r.outcome with
  | .ok _ => flushAll [] i.streams
  | .error f => .raised f

def Unhindered (i : Invocation) (r : Render (List CodePoint)) : Prop :=
  (∃ m, r.outcome = .ok m) ∧ ∀ st ∈ i.streams, st.state.Lenient

/-- What a thread comes to with an event while it ends the program: the flush of a stream, or the
end itself. -/
def closes (t : Thread) (s : State) (e : Stamp × Event) : List (Option Stream) :=
  atStep t s e.2 fun
    | .flushing [] _ _ => [none]
    | .flushing (st :: _) _ _ => [some st]
    | _ => []

def closings (t : Thread) (s : State) (es : List (Stamp × Event)) : List (Option Stream) :=
  machine.history (closes t) s es

section

theorem flush_first (flushed : List String) (st : Stream) (rest : List Stream) (looks : Nat) :
    (st.state.Lenient ∧ ∃ names, flushNext (st :: rest) flushed looks = .flushing rest names looks ∧
        flushAll flushed (st :: rest) = flushAll names rest) ∨
      ¬st.state.Lenient ∧ ∃ f, flushNext (st :: rest) flushed looks = .done (.raised f) looks ∧
        flushAll flushed (st :: rest) = .raised f := by
  cases hst : st.state with
  | working => exact .inl ⟨trivial, flushed ++ [st.name], by simp [flushNext, flushAll, hst]⟩
  | absent => exact .inl ⟨trivial, flushed, by simp [flushNext, flushAll, hst]⟩
  | failing k =>
    by_cases hk : isSuppressed k = true
    · exact .inl ⟨hk, flushed ++ [st.name], by simp [flushNext, flushAll, hst, hk]⟩
    · exact .inr ⟨hk, .scripted k, by simp [flushNext, flushAll, hst, hk]⟩

theorem flushAll_cases (flushed : List String) (streams : List Stream) :
    ((∀ st ∈ streams, st.state.Lenient) ∧
        ∃ names, flushAll flushed streams = .exited exitStatus names) ∨
      (¬∀ st ∈ streams, st.state.Lenient) ∧
        ∃ f, flushAll flushed streams = .raised f := by
  induction streams generalizing flushed with
  | nil => exact .inl ⟨by simp, flushed, rfl⟩
  | cons st rest ih =>
    rcases flush_first flushed st rest 0 with
      ⟨lenient, names, -, hnext⟩ | ⟨strict, f, -, hraised⟩
    · rw [hnext, List.forall_mem_cons]
      rcases ih names with ⟨hall, hexits⟩ | ⟨hnot, hraises⟩
      · exact .inl ⟨⟨lenient, hall⟩, hexits⟩
      · exact .inr ⟨fun hboth => hnot hboth.2, hraises⟩
    · refine .inr ⟨?_, _, hraised⟩
      intro hall
      exact strict (hall st List.mem_cons_self)

theorem parting_cases (i : Invocation) (r : Render (List CodePoint)) :
    (Unhindered i r ∧ ∃ names, parting i r = .exited exitStatus names) ∨
      ¬Unhindered i r ∧ ∃ f, parting i r = .raised f := by
  unfold parting Unhindered
  cases hr : r.outcome with
  | error f =>
    refine .inr ⟨?_, f, rfl⟩
    rintro ⟨⟨m, hm⟩, -⟩
    cases hm
  | ok m =>
    rcases flushAll_cases [] i.streams with ⟨hall, hexits⟩ | ⟨hnot, hraises⟩
    · exact .inl ⟨⟨⟨m, rfl⟩, hall⟩, hexits⟩
    · exact .inr ⟨fun hboth => hnot hboth.2, hraises⟩

end

section

variable {i : Invocation} {format : Value} {args : List Value}

def Departs (i : Invocation) (r : Render (List CodePoint)) (closed : List (Option Stream)) :
    Progress → Prop
  | .idle => True
  | .deciding _ _ => False
  | .composing j => j = i ∧ closed = []
  | .handing _ ending _ => ending = .exit i.streams ∧ (∃ m, r.outcome = .ok m) ∧ closed = []
  | .sending _ _ ending _ => ending = .exit i.streams ∧ (∃ m, r.outcome = .ok m) ∧ closed = []
  | .awaiting _ _ ending _ => ending = .exit i.streams ∧ (∃ m, r.outcome = .ok m) ∧ closed = []
  | .flushing streams flushed _ => flushAll flushed streams = parting i r ∧
    ∃ gone, i.streams = gone ++ streams ∧ closed = gone.map some
  | .done outcome _ => outcome = parting i r ∧
    ∀ status flushed, outcome = .exited status flushed → closed = i.streams.map some ++ [none]

theorem plan_of_fatal (fatal : i.call = .fatal format args) (o : Options) (now : Stamp) :
    (Plan.make o now i).outcome = (message i.host.room format args).outcome.map fun m =>
      (o, ⟨Plan.lastWords o now (.ofMethod "fatal" :: i.stack) m 0, .exit i.streams⟩) := by
  rw [← Render.outcome_map, Plan.make, fatal]

theorem flushNext_departs {r : Render (List CodePoint)} {streams gone : List Stream}
    {flushed : List String} (leads : flushAll flushed streams = parting i r)
    (hgone : i.streams = gone ++ streams) (looks : Nat) :
    Departs i r (gone.map some ++ [streams.head?]) (flushNext streams flushed looks) := by
  cases streams with
  | nil =>
    refine ⟨leads, ?_⟩
    intro status names _
    rw [hgone, List.append_nil]
    rfl
  | cons st rest =>
    have hlater : gone.map some ++ [(st :: rest).head?] = (gone ++ [st]).map some := by simp
    rw [hlater]
    rcases flush_first flushed st rest looks with
      ⟨-, names, hnext, hall⟩ | ⟨-, f, hnext, hall⟩
    · rw [hnext]
      exact ⟨hall.symm.trans leads, gone ++ [st], by simpa using hgone, rfl⟩
    · rw [hnext]
      refine ⟨hall.symm.trans leads, ?_⟩
      intro status names hexits
      cases hexits

theorem Advance.departs {now : Stamp} {s : State} {t : Thread} {e : Event} {p q : Progress}
    {closed : List (Option Stream)} (ha : Advance now s t e p q) (hp : s.callers t = p)
    (he : begun t e = []) (fatal : i.call = .fatal format args)
    (h : Departs i (message i.host.room format args) closed p) :
    Departs i (message i.host.room format args) (closed ++ closes t s (now, e)) q := by
  have hnothing : (∀ streams flushed looks, p ≠ .flushing streams flushed looks) →
      closed ++ closes t s (now, e) = closed := by
    intro hne
    suffices hnone : closes t s (now, e) = [] by rw [hnone, List.append_nil]
    cases e with
    | caller r =>
      by_cases hr : r = t
      · subst r
        cases p <;> simp_all [closes, atStep]
      · simp [closes, atStep, hr]
    | _ => rfl
  cases ha with
  | start => simp [begun] at he
  | collect => trivial
  | drop | pass => exact h.elim
  | @compose j _ _ _ made =>
    obtain ⟨hj, rfl⟩ := h
    subst j
    have hplan := plan_of_fatal fatal s.options now
    rw [Render.outcome, made] at hplan
    cases hm : (message i.host.room format args).outcome with
    | error f =>
      rw [hm] at hplan
      cases hplan
    | ok m =>
      rw [hm] at hplan
      obtain ⟨-, rfl⟩ := Prod.mk.inj (Except.ok.inj hplan)
      exact ⟨rfl, ⟨m, hm⟩, hnothing (by simp)⟩
  | @refuse j _ _ failed =>
    obtain ⟨hj, rfl⟩ := h
    subst j
    have hplan := plan_of_fatal fatal s.options now
    rw [Render.outcome, failed] at hplan
    cases hm : (message i.host.room format args).outcome with
    | ok m =>
      rw [hm] at hplan
      cases hplan
    | error f =>
      rw [hm] at hplan
      obtain rfl := Except.error.inj hplan
      refine ⟨by rw [parting, hm], ?_⟩
      intro status flushed hexits
      cases hexits
  | finish =>
    obtain ⟨rfl, ⟨m, hm⟩, rfl⟩ := h
    rw [hnothing (by simp)]
    exact ⟨by rw [parting, hm], [], rfl, rfl⟩
  | handLine | handBarrier | send | sentLine | sentBarrier | cross =>
    rw [hnothing (by simp)]
    exact h
  | @flushStream streams flushed looks =>
    obtain ⟨leads, gone, hgone, rfl⟩ := h
    have hcloses : closes t s (now, .caller t) = [streams.head?] := by
      cases streams <;> simp [closes, atStep, hp]
    rw [hcloses]
    exact flushNext_departs leads hgone looks

end

section

variable {number : Nat} {mode : Mode} {o : Options} {es before during : List (Stamp × Event)}
  {n : Stamp} {t : Thread} {i : Invocation} {format : Value} {args : List Value}

theorem run_departs
    (h : machine.Valid (initial number mode o) (before ++ (n, .start t i) :: during))
    (fatal : i.call = .fatal format args) (quiet : started t during = []) :
    Departs i (message i.host.room format args)
      (closings t (machine.after (initial number mode o) (before ++ [(n, .start t i)])) during)
      ((machine.after (initial number mode o)
        (before ++ (n, .start t i) :: during)).callers t) := by
  refine call_induction h quiet (P := fun past s => Departs i (message i.host.room format args)
    (closings t (machine.after (initial number mode o) (before ++ [(n, .start t i)])) past)
    (s.callers t)) ?_ ?_
  · have hbegin : begin i = .composing i := by rw [begin, fatal]
    have hcallers : (machine.next (machine.after (initial number mode o) before)
        (n, .start t i)).callers t = begin i := update_same _ _ _
    rw [hcallers, hbegin]
    exact ⟨rfl, rfl⟩
  · intro past e s _ hm hbegun hdeparts
    have hs : s = machine.after
        (machine.after (initial number mode o) (before ++ [(n, .start t i)])) past := by
      rw [← Machine.after_append, List.append_assoc, List.singleton_append]
    have hclosings :
      closings t (machine.after (initial number mode o) (before ++ [(n, .start t i)]))
        (past ++ [e]) = closings t (machine.after (initial number mode o)
          (before ++ [(n, .start t i)])) past ++ closes t s e := by
      rw [closings, Machine.history_append, hs]
      simp [Machine.history, closings]
    rw [hclosings]
    by_cases ht : e.2.caller? = some t
    · exact (move_advance hm ht).departs rfl hbegun fatal hdeparts
    · rw [move_callers hm ht, closes, atStep_other ht, List.append_nil]
      exact hdeparts

/-- A call that is to end the program has one possible answer. -/
theorem run_parting
    (h : machine.Valid (initial number mode o) (before ++ (n, .start t i) :: during))
    (fatal : i.call = .fatal format args) (quiet : started t during = [])
    (done : IsDone ((machine.after (initial number mode o)
      (before ++ (n, .start t i) :: during)).callers t)) :
    ∃ looks, (machine.after (initial number mode o)
      (before ++ (n, .start t i) :: during)).callers t =
      .done (parting i (message i.host.room format args)) looks := by
  obtain ⟨outcome, looks, hdone⟩ := isDone_iff.mp done
  have hdeparts := run_departs h fatal quiet
  rw [hdone] at hdeparts
  exact ⟨looks, hdeparts.1 ▸ hdone⟩

structure Departure (number : Nat) (mode : Mode) (o : Options) (es : List (Stamp × Event))
    (s : State) : Prop where
  /-- A call that is to end the program has one possible answer. -/
  answered : ∀ before n t i format args during outcome looks,
    es = before ++ (n, .start t i) :: during → i.call = .fatal format args →
    started t during = [] → s.callers t = .done outcome looks →
    outcome = parting i (message i.host.room format args)
  /-- It has that answer once nobody can go on, unless the worker has ended, and if nothing new
  begins there are only so many steps until then, whatever becomes of the writes. -/
  reached : ∀ before n t i format args during,
    es = before ++ (n, .start t i) :: during → i.call = .fatal format args →
    started t during = [] → ¬IsIdle (s.callers t) →
    ∃ bound, ∀ rest, machine.Valid (initial number mode o) (es ++ rest) →
      (∀ e ∈ rest, e.2.begins = false) → goings rest ≤ bound ∧
        ((∀ e ∈ rest, e.2 ≠ .collect t) →
          Still (machine.after (initial number mode o) (es ++ rest)) →
          ¬Ended (machine.after (initial number mode o) (es ++ rest)).worker →
          ∃ looks, (machine.after (initial number mode o) (es ++ rest)).callers t =
            .done (parting i (message i.host.room format args)) looks)
  /-- If the worker has ended before it released the barrier of the call, there is no answer. -/
  unanswered : ∀ t, Ended s.worker → Barred s.released (s.callers t) →
    ∀ rest, machine.Valid s rest → ¬IsDone ((machine.after s rest).callers t)
  /-- The answer is the end of the program exactly if nothing comes in the way of that. -/
  ends : ∀ i r, (∃ names, parting i r = .exited 1 names) ↔ Unhindered i r
  /-- If something does, the answer is a fault; it is never a value. -/
  unwinds : ∀ i r, (∃ f, parting i r = .raised f) ↔ ¬Unhindered i r

theorem fatal_ends_unhindered (h : machine.Valid (initial number mode o) es) :
    Departure number mode o es (machine.after (initial number mode o) es) := by
  constructor
  · rintro before n t i format args during outcome looks rfl fatal quiet hdone
    obtain ⟨looks', hparting⟩ := run_parting h fatal quiet (by rw [hdone]; trivial)
    exact (Progress.done.inj (hdone.symm.trans hparting)).1
  · rintro before n t i format args during rfl fatal quiet busy
    obtain ⟨bound, hbound⟩ := run_settles (reachable_of_valid h)
    refine ⟨bound, fun rest hrun hquiet => ?_⟩
    have hrest := ((machine.valid_append _ _ _).mp hrun).2
    refine ⟨hbound rest hrest hquiet, fun uncollected still alive => ?_⟩
    have hdone := run_answered hrun busy uncollected still alive
    have hlonger : started t (during ++ rest) = [] := by
      rw [started, List.flatMap_append, ← started, ← started, quiet, started_quiet hquiet]
      rfl
    rw [List.append_assoc, List.cons_append] at hrun hdone ⊢
    exact run_parting hrun fatal hlonger hdone
  · intro t hended hbarred rest hrest
    exact run_never_done (reachable_of_valid h) hrest hended hbarred
  · intro i r
    rcases parting_cases i r with ⟨hfree, hexits⟩ | ⟨hheld, f, hraised⟩
    · exact iff_of_true hexits hfree
    · rw [hraised]
      simp [hheld]
  · intro i r
    rcases parting_cases i r with ⟨hfree, names, hexited⟩ | ⟨hheld, hraises⟩
    · rw [hexited]
      simp [hfree]
    · exact iff_of_true hraises hheld

end

/-- Up to so many steps after the barrier of a call was released that is to end the program. The
write of its first line fails. -/
def demise (output error : StreamState) (k : Nat) : List (Stamp × Event) :=
  let now : Stamp := ⟨2024, 5, 6, 7, 8, 9, 1234⟩
  let step (k : Nat) : List Event := List.replicate k (.caller (.caller 0))
  let work (k : Nat) : List Event := List.replicate k (.worker none)
  let stack : Stack := [⟨"/d/x", some 7, some "m", "f"⟩]
  let events : List Event :=
    step 6 ++ work 2 ++ step 8 ++ work 1 ++ [.worker (some (.scripted .system))] ++ work 3 ++
      step 8 ++ work 5 ++ step 3 ++ work 1 ++ step k
  (work 3).map (now, ·) ++
    (now, .start (.caller 0)
      ⟨.fatal (.text "bye") [], stack, standardStreams output error, .usual⟩) ::
      events.map (now, ·)

theorem demise_ends_unhindered :
    let es := demise (.failing .system) .absent 5
    let s := machine.after (initial 1 .bytes infoOnly) es
    (∃ looks, s.callers (.caller 0) = .done (.exited 1 ["stdout"]) looks) ∧
      Departure 1 .bytes infoOnly es s := by
  have h : machine.Valid (initial 1 .bytes infoOnly) (demise (.failing .system) .absent 5) := by
    decide +kernel
  exact ⟨run_parting h rfl (by decide +kernel) (by decide +kernel), fatal_ends_unhindered h⟩

/-- A stream whose flush fails otherwise keeps the program from ending. -/
theorem strict_flush_unwinds :
    let es := demise (.failing (.other "RuntimeError")) .working 3
    machine.Valid (initial 1 .bytes infoOnly) es ∧
      ∃ looks, (machine.after (initial 1 .bytes infoOnly) es).callers (.caller 0) =
        .done (.raised (.scripted (.other "RuntimeError"))) looks := by
  have h : machine.Valid (initial 1 .bytes infoOnly)
      (demise (.failing (.other "RuntimeError")) .working 3) := by
    decide +kernel
  exact ⟨h, run_parting h rfl (by decide +kernel) (by decide +kernel)⟩

end Logger

end LeveledLog
