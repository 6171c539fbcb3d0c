import LeveledLog.Logger.Plan
import Mathlib.Tactic.SplitIfs

/-!
A logger that writes inside each call, as the reference for the one with a worker. What a call
writes depends on the header options, the clock and the call alone, and for a leveled call on
whether its level reaches the threshold. Whether a write succeeds is left out: it changes nothing
that is written later.
-/

namespace LeveledLog

theorem Render.outcome_map {α β : Type} (r : Render α) (g : α → β) :
    outcome (do let a ← r; pure (g a)) = (outcome r).map g := by
  change (ExceptT.run (r >>= fun a => pure (g a)) 0).1 = _
  simp only [outcome, bind, ExceptT.bind, ExceptT.mk, ExceptT.run, StateT.bind, StateT.run]
  rcases r 0 with ⟨_ | a, n⟩ <;> rfl

theorem Render.of_outcome_ok {α β : Type} {r : Render α} {g : α → β} {b : β}
    (h : outcome (do let a ← r; pure (g a)) = .ok b) : ∃ a, outcome r = .ok a ∧ b = g a := by
  rw [outcome_map] at h
  cases hr : outcome r <;> rw [hr] at h
  case error => cases h
  case ok a => exact ⟨a, rfl, (Except.ok.inj h).symm⟩

theorem Value.compareInt_integer {v : Value} {d : Int} (integer : v.int? = some d) (j : Int) :
    v.compareInt? j = some (some (compare d j)) := by
  cases v <;> simp_all [Value.compareInt?, Value.int?]

def Task.line? : Task → Option (List CodePoint)
  | line l => some l
  | barrier => none

def Plan.lines (p : Plan) : List (List CodePoint) := p.tasks.filterMap Task.line?

/-- The place of the `n`-th innermost frame, counted from one. -/
def Stack.siteAt (stack : Stack) (n : Nat) : CallSite := stack.siteBeyond (n - 1)

def Level.tellsSite (l : Level) : Bool := l.depth != 0

namespace Direct

def siteOf (f : Flags) (stack : Stack) (tellsSite : Bool) : Option CallSite :=
  if tellsSite && Line.wantsSite f then some (stack.siteAt 1) else none

def lineOf (f : Flags) (now : Stamp) (stack : Stack) (p : Priority) (tellsSite : Bool)
    (message : List CodePoint) : List (List CodePoint) :=
  if message = [] then [] else [Line.format p.rank f message (siteOf f stack tellsSite) now]

def blockOf (stack : Stack) (depth : Nat) : List CodePoint :=
  Text.points (Backtrace.block (Backtrace.frames stack depth))

/-- The place at a depth, if the depth and the options ask for one. -/
def locate (f : Flags) (stack : Stack) (depth : Value) : Render (Option CallSite) :=
  match depth.compareInt? 0 with
  | none => throw .wrongType
  | some (some .gt) =>
    if Line.wantsSite f then
      match depth.int? with
      | some n => pure (some (stack.siteAt n.toNat))
      | none => throw .wrongType
    else pure none
  | some _ => pure none

def emission (f : Flags) (now : Stamp) (i : Invocation) : Render (List (List CodePoint)) :=
  match i.call with
  | .leveled l format args => do
    let m ← message i.host.room format args
    pure (lineOf f now i.stack l.priority l.tellsSite m)
  | .printf format args => do
    let m ← message i.host.room format args
    pure (lineOf f now i.stack .info false m)
  | .print values => do
    let m ← Plan.spaced values
    pure (lineOf f now i.stack .info false (Text.points m))
  | .output depth priority m =>
    if m.truth then do
      let site ← locate f i.stack depth
      let line ← Line.ofValues priority f m site now
      pure [line]
    else pure []
  | .backtrace depth => do
    let stack := i.stack.drop 1
    let d ← Plan.depthOf (stack.take Backtrace.frameLimit).length depth
    pure [blockOf stack d]
  | .panic format args => do
    let m ← message i.host.room format args
    pure (lineOf f now i.stack .emergency true m ++ [blockOf i.stack Backtrace.panicDepth])
  | .fatal format args => do
    let m ← message i.host.room format args
    pure (lineOf f now i.stack .emergency true m ++ [blockOf i.stack 0])
  | _ => pure []

def linesOf : Except Fault (List (List CodePoint)) → List (List CodePoint)
  | .ok lines => lines
  | .error _ => []

def emitted (f : Flags) (now : Stamp) (i : Invocation) : List (List CodePoint) :=
  linesOf (emission f now i).outcome

/-- What a call writes. Only leveled calls are dropped. -/
def writes (o : Options) (now : Stamp) (i : Invocation) : List (List CodePoint) :=
  match i.call with
  | .leveled l _ _ => if o.threshold ≤ l.priority then emitted o.flags now i else []
  | _ => emitted o.flags now i

structure Lawful : Prop where
  /-- A leveled call writes one line if its level reaches the threshold and its message is not
  empty, else none. -/
  leveled : ∀ o now i l format args, i.call = .leveled l format args →
    (writes o now i).length ≤ 1 ∧ ∀ x, writes o now i = [x] ↔
      o.threshold ≤ l.priority ∧ ∃ m, (message i.host.room format args).outcome = .ok m ∧ m ≠ [] ∧
        x = Line.format l.priority.rank o.flags m (siteOf o.flags i.stack l.tellsSite) now
  others : ∀ o now i, (∀ l format args, i.call ≠ .leveled l format args) →
    writes o now i = emitted o.flags now i
  /-- Beyond the threshold, only the flags matter. -/
  lines : ∀ o now i, writes o now i = [] ∨ writes o now i = emitted o.flags now i
  prefixes : ∀ o v now i, writes { o with linePrefix := v } now i = writes o now i

theorem writes_leveled {o : Options} {now : Stamp} {i : Invocation} {l : Level} {format : Value}
    {args : List Value} (hc : i.call = .leveled l format args) :
    writes o now i =
      if o.threshold ≤ l.priority then
        linesOf ((message i.host.room format args).outcome.map
          (lineOf o.flags now i.stack l.priority l.tellsSite))
      else [] := by
  simp only [writes, hc, emitted, emission, Render.outcome_map]

theorem lawful : Lawful := by
  refine ⟨?_, ?_, ?_, ?_⟩
  · intro o now i l format args hc
    rw [writes_leveled hc]
    by_cases high : o.threshold ≤ l.priority
    · cases hm : (message i.host.room format args).outcome with
      | error f => simp [high, Except.map, linesOf]
      | ok m =>
        by_cases hnil : m = [] <;>
          simp [high, Except.map, linesOf, lineOf, hnil, eq_comm]
    · simp [high]
  · intro o now i hc
    cases hi : i.call with
    | leveled l format args => exact absurd hi (hc l format args)
    | _ => simp only [writes, hi]
  · intro o now i
    unfold writes
    split
    · split_ifs
      · exact .inr rfl
      · exact .inl rfl
    · exact .inr rfl
  · intro o v now i
    rfl

def assigned (o : Options) (i : Invocation) : Render Options :=
  match i.call with
  | .setPriority v => do
    let p ← Priority.ofValue v
    pure { o with threshold := p }
  | .setFlags v => do
    let f ← Flags.ofValue i.host.made v
    pure { o with flags := f }
  | .setPrefix v => pure { o with linePrefix := v }
  | _ => pure o

/-- The options after a call. An assignment of a value that does not do changes nothing. -/
def settings (o : Options) (i : Invocation) : Options :=
  match (assigned o i).outcome with
  | .ok o' => o'
  | .error _ => o

def settle (o : Options) : List (Stamp × Invocation) → Options
  | [] => o
  | (_, i) :: rest => settle (settings o i) rest

def log (o : Options) : List (Stamp × Invocation) → List (List CodePoint)
  | [] => []
  | (now, i) :: rest => writes o now i ++ log (settings o i) rest

theorem settle_append (o : Options) (cs ds : List (Stamp × Invocation)) :
    settle o (cs ++ ds) = settle (settle o cs) ds := by
  induction cs generalizing o with
  | nil => rfl
  | cons c cs ih => exact ih (settings o c.2)

theorem log_append (o : Options) (cs ds : List (Stamp × Invocation)) :
    log o (cs ++ ds) = log o cs ++ log (settle o cs) ds := by
  induction cs generalizing o with
  | nil => rfl
  | cons c cs ih =>
    change writes o c.1 c.2 ++ log (settings o c.2) (cs ++ ds) = _
    rw [ih, ← List.append_assoc]
    rfl

theorem callSite_output (stack : Stack) {n : Nat} (positive : 0 < n) :
    Plan.callSite (Frame.ofMethod "output" :: stack) n = stack.siteAt n := by
  cases n with
  | zero => exact absurd positive (Nat.lt_irrefl 0)
  | succ n => rfl

theorem siteOf_output (f : Flags) (stack : Stack) (depth : Value) :
    Plan.siteOf f (Frame.ofMethod "output" :: stack) depth = locate f stack depth := by
  unfold Plan.siteOf locate
  cases integer : depth.int? with
  | none => rfl
  | some n =>
    rw [Value.compareInt_integer integer]
    cases sign : compare n 0 with
    | gt =>
      have positive : 0 < n := Int.compare_eq_gt.mp sign
      dsimp only
      rw [callSite_output stack (by omega)]
    | lt | eq => rfl

theorem level_depth (l : Level) : l.depth = if l.tellsSite then 2 else 0 := by
  cases l <;> rfl

/-- The line of a method of the library, which tells the place that the method is called from, or
none. -/
theorem plan_line (o : Options) (now : Stamp) (method : Frame) (stack : Stack) (p : Priority)
    (tellsSite : Bool) (message : List CodePoint) :
    Plan.lineOf o now (method :: stack) (if tellsSite then 2 else 0) p message =
      (lineOf o.flags now stack p tellsSite message).map .line := by
  unfold Plan.lineOf lineOf siteOf
  cases message with
  | nil => rfl
  | cons c rest =>
    cases tellsSite with
    | false => rfl
    | true => rfl

theorem level_line (o : Options) (now : Stamp) (method : Frame) (stack : Stack) (l : Level)
    (message : List CodePoint) :
    Plan.lineOf o now (method :: stack) l.depth l.priority message =
      (lineOf o.flags now stack l.priority l.tellsSite message).map .line := by
  rw [level_depth, plan_line]

theorem traced_direct (stack : Stack) : Plan.traced stack = stack.drop 1 := rfl

theorem last_words (o : Options) (now : Stamp) (method : Frame) (stack : Stack)
    (message : List CodePoint) (depth : Nat) :
    Plan.lastWords o now (method :: stack) message depth =
      (lineOf o.flags now stack .emergency true message ++ [blockOf stack depth]).map .line ++
        [.barrier] := by
  have hline := plan_line o now method stack .emergency true message
  rw [if_pos rfl] at hline
  rw [Plan.lastWords, hline, List.map_append, List.append_assoc]
  rfl

theorem lines_of_tasks {tasks : List Task} {lines : List (List CodePoint)}
    (h : tasks = lines.map .line) : (Plan.ofTasks tasks).lines = lines := by
  rw [h, Plan.lines, Plan.ofTasks, List.filterMap_map]
  exact List.filterMap_some

theorem lines_before_barrier (lines : List (List CodePoint)) (ending : Ending) :
    Plan.lines ⟨lines.map .line ++ [.barrier], ending⟩ = lines := by
  rw [Plan.lines, List.filterMap_append]
  exact (List.append_nil _).trans (lines_of_tasks rfl)

def Fits (o : Options) (lines : List (List CodePoint)) (after : Options) :
    Except Fault (Options × Plan) → Prop
  | .ok (o', p) => p.lines = lines ∧ o' = after
  | .error _ => lines = [] ∧ after = o

theorem emission_fits {α : Type} {o : Options} {r : Render α} {plan : α → Plan}
    {lines : α → List (List CodePoint)} (h : ∀ a, (plan a).lines = lines a) :
    Fits o (linesOf (Render.outcome (do let a ← r; pure (lines a)))) o
      (Render.outcome (do let a ← r; pure (o, plan a))) := by
  rw [Render.outcome_map, Render.outcome_map]
  cases r.outcome with
  | error f => exact ⟨rfl, rfl⟩
  | ok a => exact ⟨h a, rfl⟩

theorem assigned_fits {α : Type} {o : Options} {r : Render α} {after : α → Options} :
    Fits o [] (match Render.outcome (do let a ← r; pure (after a)) with
        | .ok o' => o'
        | .error _ => o)
      (Render.outcome (do let a ← r; pure (after a, Plan.ofTasks []))) := by
  rw [Render.outcome_map, Render.outcome_map]
  cases r.outcome with
  | error f => exact ⟨rfl, rfl⟩
  | ok a => exact ⟨rfl, rfl⟩

/-- A plan has the lines that the call writes and leaves the options that it asks for; a call
without a plan does neither. -/
theorem make_fits (o : Options) (now : Stamp) (i : Invocation) :
    Fits o (emitted o.flags now i) (settings o i) (Plan.make o now i).outcome := by
  unfold emitted emission settings assigned Plan.make
  cases hc : i.call with
  | leveled l => exact emission_fits fun m => lines_of_tasks (level_line o now _ i.stack l m)
  | printf => exact emission_fits fun m => lines_of_tasks (plan_line o now _ i.stack .info false m)
  | print => exact emission_fits fun m => lines_of_tasks (plan_line o now _ i.stack .info false _)
  | output depth priority m =>
    unfold Plan.output
    by_cases hm : m.truth
    · simp only [hm, Bool.not_true, Bool.false_eq_true, if_false, if_true, bind_assoc, pure_bind]
      simp only [siteOf_output, ← bind_assoc]
      exact emission_fits fun line => rfl
    · simp only [hm, Bool.not_false, if_true, if_false, Bool.false_eq_true]
      exact ⟨rfl, rfl⟩
  | backtrace depth =>
    simp only [Plan.backtrace, bind_assoc, pure_bind]
    exact emission_fits fun d => rfl
  | sync => exact ⟨rfl, rfl⟩
  | panic | fatal =>
    refine emission_fits fun m => ?_
    rw [last_words]
    exact lines_before_barrier _ _
  | setPriority v => exact assigned_fits
  | setFlags v => exact assigned_fits
  | setPrefix v => exact ⟨rfl, rfl⟩

end Direct

end LeveledLog
