import LeveledLog.Proofs.Logger.Emission
import Mathlib.Data.List.Forall2

/-!
What backtraces show. A backtrace is a title, a line for each frame and a line without a frame; its
frames are the innermost ones of the stack that it is made from, as many as its depth asks for, but
no more than there is room for. No option has any part in it.
-/

namespace LeveledLog

namespace Backtrace

inductive Entry (fr : Frame) : List Char → Prop where
  | known {line} (placed : fr.line = some line) (filed : fr.file ≠ "") :
      Entry fr (fr.file.toList ++ ":".toList ++ Text.decimal line ++ " [".toList ++
        (fr.moduleName.getD "?").toList ++ ".".toList ++ fr.function.toList ++ "]".toList)
  | unknown (missing : fr.file = "" ∨ fr.line = none) : Entry fr "*unknown*".toList

def Lists (shown : Stack) (text : List Char) : Prop :=
  ∃ entries, List.Forall₂ Entry shown entries ∧
    text = "Backtrace:".toList ++ '\n' ::
      (entries.flatMap (fun entry => "    ".toList ++ entry ++ "\n".toList) ++ "    \n".toList)

def wanted (available : Nat) (depth : Int) : Nat :=
  if depth ≤ 0 then min 64 available else min 64 (min available depth.toNat)

/-- The frames that a depth asks for, the innermost ones in their order. -/
structure Shown (available : Stack) (depth : Int) (shown : Stack) : Prop where
  innermost : shown <+: available
  count : shown.length = wanted available.length depth

section

variable {available shown shown' : Stack} {depth depth' : Int}

theorem entry_render (fr : Frame) : Entry fr fr.render := by
  unfold Frame.render
  cases placed : fr.line with
  | none => exact .unknown (.inr placed)
  | some line =>
    dsimp only
    split
    · rename_i empty
      exact .unknown (.inl (String.isEmpty_iff.mp empty))
    · rename_i filed
      have hentry := Entry.known placed fun empty => filed (String.isEmpty_iff.mpr empty)
      simpa using hentry

theorem indented_lines (entries : List (List Char)) :
    indented (entries ++ [['\n']]) = '\n' ::
      (entries.flatMap (fun entry => "    ".toList ++ entry ++ "\n".toList) ++
        "    \n".toList) := by
  induction entries with
  | nil => simp [indented]
  | cons entry rest ih =>
    have hfirst : indented (entry :: (rest ++ [['\n']])) =
        "\n    ".toList ++ entry ++ indented (rest ++ [['\n']]) := List.flatMap_cons
    rw [List.cons_append, hfirst, ih]
    simp

theorem block_lists (shown : Stack) : Lists shown (block shown) := by
  refine ⟨shown.map Frame.render, ?_, ?_⟩
  · rw [List.forall₂_map_right_iff]
    exact List.forall₂_same.mpr fun fr _ => entry_render fr
  · exact congrArg ("Backtrace:".toList ++ ·) (indented_lines _)

/-- All frames that there is room for are shown for a depth that is not positive, and for one that
is too large. -/
theorem frames_shown {n : Nat} (asked : (n : Int) = depth ∨
      n = 0 ∧ ¬(0 < depth ∧ depth < (available.take frameLimit).length)) :
    Shown available depth (frames available n) := by
  have hroom : (available.take frameLimit).length = min 64 available.length := List.length_take
  unfold frames
  by_cases hn : n = 0
  · rw [if_pos hn]
    refine ⟨List.take_prefix _ _, ?_⟩
    rw [hroom, wanted]
    split <;> omega
  · rw [if_neg hn]
    refine ⟨(List.take_prefix _ _).trans (List.take_prefix _ _), ?_⟩
    rw [List.length_take, hroom, wanted, if_neg (by omega)]
    omega

theorem shown_nested (positive : 0 < depth) (le : depth ≤ depth') (h : Shown available depth shown)
    (h' : Shown available depth' shown') : shown <+: shown' := by
  refine List.prefix_of_prefix_length_le h.innermost h'.innermost ?_
  rw [h.count, h'.count, wanted, wanted, if_neg (by omega), if_neg (by omega)]
  omega

end

end Backtrace

section

variable {f : Flags} {now : Stamp} {i : Invocation} {depth : Value} {d : Int}

theorem depthOf_integer (available : Nat) (integer : depth.int? = some d) :
    ∃ n : Nat, Plan.depthOf available depth = pure n ∧
      ((n : Int) = d ∨ n = 0 ∧ ¬(0 < d ∧ d < available)) := by
  unfold Plan.depthOf
  rw [Value.compareInt_integer integer, Value.compareInt_integer integer, integer]
  cases sign : compare d 0 with
  | gt =>
    have positive : 0 < d := compare_gt_iff_gt.mp sign
    cases order : compare d (available : Int) with
    | lt => exact ⟨d.toNat, rfl, .inl (Int.toNat_of_nonneg (Int.le_of_lt positive))⟩
    | eq =>
      have all : d = available := compare_eq_iff_eq.mp order
      exact ⟨0, rfl, .inr ⟨rfl, by omega⟩⟩
    | gt =>
      have beyond : available < d := compare_gt_iff_gt.mp order
      exact ⟨0, rfl, .inr ⟨rfl, by omega⟩⟩
  | lt =>
    have negative : d < 0 := compare_lt_iff_lt.mp sign
    exact ⟨0, rfl, .inr ⟨rfl, by omega⟩⟩
  | eq =>
    have zero : d = 0 := compare_eq_iff_eq.mp sign
    exact ⟨0, rfl, .inr ⟨rfl, by omega⟩⟩

theorem make_backtrace (call : i.call = .backtrace depth) (integer : depth.int? = some d) :
    ∃ shown, Backtrace.Shown (i.stack.drop 1) d shown ∧ ∀ o now,
      Plan.make o now i =
        pure (o, Plan.ofTasks [.line (Text.points (Backtrace.block shown))]) := by
  obtain ⟨n, hn, asked⟩ :=
    depthOf_integer ((i.stack.drop 1).take Backtrace.frameLimit).length integer
  refine ⟨_, Backtrace.frames_shown asked, fun o now => ?_⟩
  simp only [Plan.make, call, Plan.backtrace, Direct.traced_direct, hn, pure_bind]
  rfl

theorem lineOf_length_le (f : Flags) (now : Stamp) (stack : Stack) (p : Priority)
    (tellsSite : Bool) (m : List CodePoint) :
    (Direct.lineOf f now stack p tellsSite m).length ≤ 1 := by
  unfold Direct.lineOf
  split <;> simp

end

namespace Logger

/-- Whatever the options are, before the call and during it, when it has ended it has handed off
this text as its last, after so many others at most. -/
def HandsOffLast (i : Invocation) (most : Nat) (text : List Char) : Prop :=
  ∀ number mode o before n t during,
    machine.Valid (initial number mode o) (before ++ (n, .start t i) :: during) →
    started t during = [] →
    let s := machine.after (initial number mode o) (before ++ (n, .start t i) :: during)
    Finished (s.callers t) → ∃ others, others.length ≤ most ∧ ofThread t s.handedOff =
      ofThread t (machine.after (initial number mode o) before).handedOff ++
        (others ++ [Text.points text])

theorem hands_off_last {i : Invocation} {most : Nat} {text : List Char}
    (kept : ∀ l format args, i.call ≠ .leveled l format args)
    (lines : ∀ f now, ∃ others, others.length ≤ most ∧
      Direct.emitted f now i = others ++ [Text.points text]) :
    HandsOffLast i most text := by
  intro number mode o before n t during h quiet s finished
  obtain ⟨d, now, rest, -, -, hnew⟩ := run_uttered_lines h kept quiet finished
  obtain ⟨others, hothers, hlines⟩ := lines
    (machine.after (initial number mode o) (before ++ (n, .start t i) :: d)).options.flags now
  rw [hlines] at hnew
  exact ⟨others, hothers, hnew⟩

structure Traced (stack : Stack) : Prop where
  /-- A direct call begins one frame further out, and it returns. -/
  direct : ∀ depth d streams host, depth.int? = some d → ∃ shown text,
    Backtrace.Shown (stack.drop 1) d shown ∧ Backtrace.Lists shown text ∧
      HandsOffLast ⟨.backtrace depth, stack, streams, host⟩ 0 text
  answered : ∀ depth d streams host, depth.int? = some d → ∀ number mode o es t outcome looks,
    machine.Valid (initial number mode o) es →
    latest t es = some ⟨.backtrace depth, stack, streams, host⟩ →
    (machine.after (initial number mode o) es).callers t = .done outcome looks →
    outcome = .returned .none
  /-- A call that ends the program shows the whole stack, and one that ends an operation five frames
  of it. -/
  fatal : ∀ format args m streams host, (message host.room format args).outcome = .ok m →
    ∃ shown text,
    Backtrace.Shown stack 0 shown ∧ Backtrace.Lists shown text ∧
      HandsOffLast ⟨.fatal format args, stack, streams, host⟩ 1 text
  panic : ∀ format args m streams host, (message host.room format args).outcome = .ok m →
    ∃ shown text,
    Backtrace.Shown stack 5 shown ∧ Backtrace.Lists shown text ∧
      HandsOffLast ⟨.panic format args, stack, streams, host⟩ 1 text
  nested : ∀ {available d d' shown shown'}, 0 < d → d ≤ d' → Backtrace.Shown available d shown →
    Backtrace.Shown available d' shown' → shown <+: shown'

theorem backtraces_show_stack (stack : Stack) : Traced stack := by
  constructor
  · intro depth d streams host integer
    obtain ⟨shown, hshown, hmake⟩ :=
      make_backtrace (i := ⟨.backtrace depth, stack, streams, host⟩) rfl integer
    refine ⟨shown, _, hshown, Backtrace.block_lists shown, ?_⟩
    refine hands_off_last (fun _ _ _ => Call.noConfusion) fun f now => ?_
    have hlines := (plan_of_made (congrArg (·.run.run 0) (hmake ⟨.info, f, .none⟩ now))).1
    exact ⟨[], Nat.le_refl 0, hlines.symm⟩
  · intro depth d streams host integer number mode o es t outcome looks h hlatest hdone
    obtain ⟨shown, -, hmake⟩ :=
      make_backtrace (i := ⟨.backtrace depth, stack, streams, host⟩) rfl integer
    cases run_answers h hlatest hdone with
    | refused failed =>
      rw [hmake] at failed
      cases failed
    | returned ends =>
      obtain rfl := Ending.value.inj ends
      rfl
    | raised ends | exited ends | unflushed ends => cases ends
  · intro format args m streams host renders
    refine ⟨_, _, Backtrace.frames_shown (n := 0) (.inl rfl), Backtrace.block_lists _, ?_⟩
    refine hands_off_last (fun _ _ _ => Call.noConfusion) fun f now => ?_
    exact ⟨_, lineOf_length_le f now stack .emergency true m, emitted_fatal rfl renders⟩
  · intro format args m streams host renders
    refine ⟨_, _, Backtrace.frames_shown (n := Backtrace.panicDepth) (.inl rfl),
      Backtrace.block_lists _, ?_⟩
    refine hands_off_last (fun _ _ _ => Call.noConfusion) fun f now => ?_
    exact ⟨_, lineOf_length_le f now stack .emergency true m, emitted_panic rfl renders⟩
  · intro available d d' shown shown' positive le hshown hshown'
    exact Backtrace.shown_nested positive le hshown hshown'

example : Direct.blockOf [⟨"/d/x", some 7, none, "f"⟩, ⟨"", some 1, some "m", "g"⟩] 0 =
    Text.points "Backtrace:\n    /d/x:7 [?.f]\n    *unknown*\n    \n".toList := by
  decide +kernel

end Logger

end LeveledLog
