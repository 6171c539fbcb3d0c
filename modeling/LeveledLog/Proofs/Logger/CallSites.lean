import LeveledLog.Proofs.Line.Places
import LeveledLog.Proofs.Logger.Emission

/-!
Which place a call reports. Each kind of call looks so deep into the stack above it that it finds
the frame of its own caller, or the frame that it was asked for, or it does not look. What is found
stands in its line and nowhere else, under the options of the moment when the line is composed.
-/

namespace LeveledLog

/-- How deep in the stack the place is that a call with a message reports; at no depth, it reports
none. -/
def Call.placeDepth? : Call → Option Int
  | .leveled l _ _ => some (match l with
    | .debug => 1
    | .info => 0
    | .warning => 0
    | .error => 1
    | .critical => 1)
  | .printf _ _ => some 0
  | .print _ => some 0
  | .output depth _ _ => depth.int?
  | .panic _ _ => some 1
  | .fatal _ _ => some 1
  | _ => none

inductive Utters (f : Flags) (i : Invocation) : List Char → List CodePoint → Prop where
  | speech {p tells r m} (speaks : i.call.speech? i.host.room = some (p, tells, r))
      (renders : Render.outcome r = .ok m) (nonempty : m ≠ []) : Utters f i (Text.decimal p.rank) m
  | output {depth priority v s tag} (outputs : i.call = .output depth priority v)
      (text : v.text? = some s) (nonempty : v.truth = true)
      (tagged : (Line.tagOf priority f).outcome = .ok tag) : Utters f i tag (Text.points s.toList)

def Call.Trailed (c : Call) (more : List (List CodePoint)) : Prop :=
  more = [] ∨ c.Traces ∧ ∃ frames, more = [Text.points (Backtrace.block frames)]

/-- The lines of a call with a message. Its place, so deep in the stack, is in the first of them. -/
inductive Reported (f : Flags) (now : Stamp) (i : Invocation) (depth : Int) :
    List (List CodePoint) → Prop where
  | told {tag m place more} (utters : Utters f i tag m)
      (placed : Line.Placed f i.stack depth place) (trailed : i.call.Trailed more) :
      Reported f now i depth
        ((Text.points (Line.front tag f now ++ place) ++ Line.complete m) :: more)
  | silent {more} (mute : ∀ tag m, ¬Utters f i tag m) (trailed : i.call.Trailed more) :
      Reported f now i depth more

section

variable {f : Flags} {now : Stamp} {i : Invocation} {depth : Int}

theorem locate_integer {v : Value} (integer : v.int? = some depth) (stack : Stack) :
    Direct.locate f stack v = pure (if 0 < depth ∧ Line.wantsSite f = true then
      some (stack.siteAt depth.toNat) else none) := by
  unfold Direct.locate
  rw [Value.compareInt_integer integer, integer]
  cases order : compare depth 0 with
  | gt =>
    have positive : 0 < depth := compare_gt_iff_gt.mp order
    by_cases wants : Line.wantsSite f = true
    · simp [positive, wants]
    · simp [positive, wants]
  | lt =>
    have negative : depth < 0 := compare_lt_iff_lt.mp order
    have untold : ¬(0 < depth ∧ Line.wantsSite f = true) := by omega
    rw [if_neg untold]
  | eq =>
    have zero : depth = 0 := compare_eq_iff_eq.mp order
    have untold : ¬(0 < depth ∧ Line.wantsSite f = true) := by omega
    rw [if_neg untold]

theorem direct_site (f : Flags) (stack : Stack) (tells : Bool) :
    Direct.siteOf f stack tells = if 0 < (if tells then 1 else 0 : Int) ∧ Line.wantsSite f = true
      then some (stack.siteAt (if tells then 1 else 0 : Int).toNat) else none := by
  cases tells <;> simp [Direct.siteOf]

theorem assemble_placed (tag : List Char) (m : List CodePoint) (site : Option CallSite)
    (now : Stamp) : Line.assemble tag f m site now =
      Text.points (Line.front tag f now ++ Line.placed f site) ++ Line.complete m := by
  cases site <;> rfl

/-- A call that says what its message comes to, and then what is left for it to say. -/
theorem speech_reported {p : Priority} {r : Render (List CodePoint)} (tells : Bool)
    (more : List (List CodePoint)) (speaks : i.call.speech? i.host.room = some (p, tells, r))
    (depth_eq : depth = if tells then 1 else 0) (trailed : i.call.Trailed more)
    (lines : Direct.emitted f now i = Direct.linesOf (r.outcome.map fun m =>
      Direct.lineOf f now i.stack p tells m ++ more)) :
    Reported f now i depth (Direct.emitted f now i) := by
  have hmute : (∀ m, r.outcome = .ok m → m = []) → ∀ tag m, ¬Utters f i tag m := by
    rintro empty tag m (⟨speaks', renders, nonempty⟩ | ⟨outputs⟩)
    · rw [speaks] at speaks'
      cases speaks'
      exact nonempty (empty m renders)
    · rw [outputs] at speaks
      cases speaks
  rw [lines]
  cases renders : r.outcome with
  | error fault => exact .silent (hmute fun m hm => by cases renders.symm.trans hm) (.inl rfl)
  | ok m =>
    by_cases hm : m = []
    · have hline : Direct.lineOf f now i.stack p tells m = [] := if_pos hm
      change Reported f now i depth (Direct.lineOf f now i.stack p tells m ++ more)
      rw [hline]
      refine .silent (hmute fun m' hm' => ?_) trailed
      rw [renders] at hm'
      cases hm'
      exact hm
    · have hline : Direct.lineOf f now i.stack p tells m =
          [Text.points (Line.front (Text.decimal p.rank) f now ++
              Line.placed f (Direct.siteOf f i.stack tells)) ++ Line.complete m] := by
        rw [Direct.lineOf, if_neg hm, Line.format, if_neg (by simpa using hm), assemble_placed]
      change Reported f now i depth (Direct.lineOf f now i.stack p tells m ++ more)
      rw [hline, direct_site, depth_eq]
      exact .told (.speech speaks renders hm) (Line.placed_site f i.stack _) trailed

theorem ofValues_outcome (f : Flags) (now : Stamp) (priority : Value) {v : Value}
    (nonempty : v.truth = true) (site : Option CallSite) :
    (∃ fault, (Line.ofValues priority f v site now).outcome = .error fault ∧
        ∀ tag s, (Line.tagOf priority f).outcome = .ok tag → v.text? ≠ some s) ∨
      ∃ tag s, (Line.tagOf priority f).outcome = .ok tag ∧ v.text? = some s ∧
        (Line.ofValues priority f v site now).outcome =
          .ok (Line.assemble tag f (Text.points s.toList) site now) := by
  unfold Line.ofValues
  simp only [nonempty, Bool.not_true, Bool.false_eq_true, if_false]
  cases text : v.text? with
  | none =>
    refine .inl ?_
    obtain ⟨fault, hfault⟩ : ∃ fault, Render.outcome (do
        let _ ← Line.tagOf priority f
        (throw .wrongType : Render (List CodePoint))) = .error fault := by
      change ∃ fault, (ExceptT.run (Line.tagOf priority f >>= fun _ => throw .wrongType) 0).1 = _
      simp only [bind, ExceptT.bind, ExceptT.mk, ExceptT.run, StateT.bind]
      rcases Line.tagOf priority f 0 with ⟨_ | tag, n⟩ <;> exact ⟨_, rfl⟩
    exact ⟨fault, hfault, fun _ _ _ => by simp⟩
  | some s =>
    dsimp only
    rw [Render.outcome_map]
    cases tagged : (Line.tagOf priority f).outcome with
    | error fault => exact .inl ⟨fault, rfl, by simp⟩
    | ok tag => exact .inr ⟨tag, s, rfl, rfl, rfl⟩

theorem output_reported {at' priority v : Value} (call : i.call = .output at' priority v)
    (integer : at'.int? = some depth) : Reported f now i depth (Direct.emitted f now i) := by
  have hmute : (v.truth = true → ∀ tag s, (Line.tagOf priority f).outcome = .ok tag →
      v.text? ≠ some s) → ∀ tag m, ¬Utters f i tag m := by
    rintro hnot tag m (⟨speaks⟩ | ⟨outputs, text, nonempty, tagged⟩)
    · rw [call] at speaks
      cases speaks
    · rw [call] at outputs
      cases outputs
      exact hnot nonempty _ _ tagged text
  by_cases nonempty : v.truth = true
  · have hlines : Direct.emitted f now i = Direct.linesOf
        ((Line.ofValues priority f v (if 0 < depth ∧ Line.wantsSite f = true then
          some (i.stack.siteAt depth.toNat) else none) now).outcome.map fun line => [line]) := by
      simp only [Direct.emitted, Direct.emission, call, nonempty, if_true, locate_integer integer,
        pure_bind, Render.outcome_map]
    rw [hlines]
    rcases ofValues_outcome f now priority nonempty
        (if 0 < depth ∧ Line.wantsSite f = true then
          some (i.stack.siteAt depth.toNat) else none) with
      ⟨fault, fails, hnot⟩ | ⟨tag, text, tagged, htext, rendered⟩
    · rw [fails]
      exact .silent (hmute fun _ => hnot) (.inl rfl)
    · rw [rendered, assemble_placed]
      exact .told (.output call htext nonempty tagged) (Line.placed_site f i.stack depth) (.inl rfl)
  · have hlines : Direct.emitted f now i = [] := by
      simp only [Direct.emitted, Direct.emission, call, nonempty]
      rfl
    rw [hlines]
    exact .silent (hmute fun h => absurd h nonempty) (.inl rfl)

theorem call_reported (placed : i.call.placeDepth? = some depth) :
    Reported f now i depth (Direct.emitted f now i) := by
  cases call : i.call with
  | leveled l format args =>
    rw [call] at placed
    refine speech_reported _ [] (by rw [call]; rfl) ?_ (.inl rfl) ?_
    · rw [← Option.some.inj placed]
      cases l <;> rfl
    · simp only [Direct.emitted, Direct.emission, call, Render.outcome_map, List.append_nil]
  | printf =>
    rw [call] at placed
    have untold := (Option.some.inj placed).symm
    refine speech_reported false [] (by rw [call]; rfl) untold (.inl rfl) ?_
    simp only [Direct.emitted, Direct.emission, call, Render.outcome_map, List.append_nil]
  | print values =>
    rw [call] at placed
    have untold := (Option.some.inj placed).symm
    refine speech_reported false [] (by rw [call]; rfl) untold (.inl rfl) ?_
    have points : (Text.points <$> Plan.spaced values).outcome =
        (Plan.spaced values).outcome.map Text.points := by
      rw [← bind_pure_comp, Render.outcome_map]
    simp only [Direct.emitted, Direct.emission, call, Render.outcome_map, points, List.append_nil]
    cases (Plan.spaced values).outcome <;> rfl
  | output at' priority v =>
    rw [call] at placed
    exact output_reported call placed
  | panic =>
    rw [call] at placed
    have innermost := (Option.some.inj placed).symm
    refine speech_reported true [Direct.blockOf i.stack Backtrace.panicDepth]
      (by rw [call]; rfl) innermost (.inr ⟨by rw [call]; trivial, _, rfl⟩) ?_
    simp only [Direct.emitted, Direct.emission, call, Render.outcome_map]
  | fatal =>
    rw [call] at placed
    have innermost := (Option.some.inj placed).symm
    refine speech_reported true [Direct.blockOf i.stack 0]
      (by rw [call]; rfl) innermost (.inr ⟨by rw [call]; trivial, _, rfl⟩) ?_
    simp only [Direct.emitted, Direct.emission, call, Render.outcome_map]
  | backtrace | sync | setPriority | setFlags | setPrefix =>
    rw [call] at placed
    cases placed

end

namespace Call

variable {method : String} {a : Arguments} {c : Call}

theorem ofMethod_of_request (h : ofRequest method a = .ok c) : ofMethod method a = some c := by
  unfold ofRequest at h
  split at h
  · cases h
  · split at h
    · rename_i made
      rw [made, Except.ok.inj h]
    · cases h

theorem formatted_of_request {g : Value → List Value → Call}
    (formatted : ofMethod method a = (formatted? a).map fun (format, args) => g format args)
    (h : ofRequest method a = .ok c) : ∃ format args, c = g format args := by
  rw [ofMethod_of_request h] at formatted
  obtain ⟨⟨format, args⟩, -, rfl⟩ := Option.map_eq_some_iff.mp formatted.symm
  exact ⟨format, args, rfl⟩

theorem innermost_of_request
    (named : method ∈ ["debug", "error", "err", "crit", "critical", "panic", "fatal"])
    (h : ofRequest method a = .ok c) : c.placeDepth? = some 1 := by
  simp only [List.mem_cons, List.not_mem_nil, or_false] at named
  rcases named with rfl | rfl | rfl | rfl | rfl | rfl | rfl
  · obtain ⟨format, args, rfl⟩ := formatted_of_request (g := .leveled .debug) rfl h
    rfl
  · obtain ⟨format, args, rfl⟩ := formatted_of_request (g := .leveled .error) rfl h
    rfl
  · obtain ⟨format, args, rfl⟩ := formatted_of_request (g := .leveled .error) rfl h
    rfl
  · obtain ⟨format, args, rfl⟩ := formatted_of_request (g := .leveled .critical) rfl h
    rfl
  · obtain ⟨format, args, rfl⟩ := formatted_of_request (g := .leveled .critical) rfl h
    rfl
  · obtain ⟨format, args, rfl⟩ := formatted_of_request (g := .panic) rfl h
    rfl
  · obtain ⟨format, args, rfl⟩ := formatted_of_request (g := .fatal) rfl h
    rfl

theorem nowhere_of_request (named : method ∈ ["info", "warn", "warning", "printf", "print"])
    (h : ofRequest method a = .ok c) : c.placeDepth? = some 0 := by
  simp only [List.mem_cons, List.not_mem_nil, or_false] at named
  rcases named with rfl | rfl | rfl | rfl | rfl
  · obtain ⟨format, args, rfl⟩ := formatted_of_request (g := .leveled .info) rfl h
    rfl
  · obtain ⟨format, args, rfl⟩ := formatted_of_request (g := .leveled .warning) rfl h
    rfl
  · obtain ⟨format, args, rfl⟩ := formatted_of_request (g := .leveled .warning) rfl h
    rfl
  · obtain ⟨format, args, rfl⟩ := formatted_of_request (g := .printf) rfl h
    rfl
  · have hmade := ofMethod_of_request h
    change (if a.named.isEmpty then some (Call.print a.positional) else none) = some c at hmade
    split at hmade
    · rw [← Option.some.inj hmade]
      rfl
    · cases hmade

theorem output_of_request (h : ofRequest "output" a = .ok c) :
    ∃ depth priority m, c = .output depth priority m := by
  have hmade := ofMethod_of_request h
  have hname : levels.lookup "output" = none := rfl
  simp only [ofMethod, hname] at hmade
  split at hmade
  · exact ⟨_, _, _, (Option.some.inj hmade).symm⟩
  · cases hmade

end Call

namespace Logger

structure TellsPlaces : Prop where
  innermost : ∀ method ∈ ["debug", "error", "err", "crit", "critical", "panic", "fatal"],
    ∀ a c, Call.ofRequest method a = .ok c → c.placeDepth? = some 1
  nowhere : ∀ method ∈ ["info", "warn", "warning", "printf", "print"],
    ∀ a c, Call.ofRequest method a = .ok c → c.placeDepth? = some 0
  asked : ∀ a c, Call.ofRequest "output" a = .ok c →
    ∃ depth priority m, c = .output depth priority m ∧ c.placeDepth? = depth.int?
  /-- When a call has ended that has a depth, it was dropped for the threshold, or it has handed off
  a line with the place at that depth, if it had anything to say. -/
  reported : ∀ {number mode o before n t i during depth},
    machine.Valid (initial number mode o) (before ++ (n, .start t i) :: during) →
    started t during = [] → i.call.placeDepth? = some depth →
    let states d := machine.after (initial number mode o) (before ++ (n, .start t i) :: d)
    Finished ((states during).callers t) → ∃ new,
      ofThread t (states during).handedOff =
          ofThread t (machine.after (initial number mode o) before).handedOff ++ new ∧
        ((new = [] ∧ ∃ l format args d now rest, i.call = .leveled l format args ∧
            during = d ++ (now, .caller t) :: rest ∧ (states d).callers t = .deciding i l ∧
            ¬(states d).options.threshold ≤ l.priority) ∨
          ∃ d now rest, during = d ++ (now, .caller t) :: rest ∧
            (states d).callers t = .composing i ∧
            Reported (states d).options.flags now i depth new)

theorem calls_tell_places : TellsPlaces := by
  constructor
  · exact fun method named a c h => Call.innermost_of_request named h
  · exact fun method named a c h => Call.nowhere_of_request named h
  · intro a c h
    obtain ⟨depth, priority, m, rfl⟩ := Call.output_of_request h
    exact ⟨depth, priority, m, rfl, rfl⟩
  · intro number mode o before n t i during depth h quiet placed states finished
    obtain ⟨new, huttered, hnew⟩ := run_emission h quiet finished
    refine ⟨new, hnew, ?_⟩
    cases huttered with
    | dropped call decided deciding low =>
      exact .inl ⟨rfl, _, _, _, _, _, _, call, decided, deciding, low⟩
    | composed moment composing => exact .inr ⟨_, _, _, moment, composing, call_reported placed⟩

example :
    let stack : Stack := [⟨"/d/x", some 7, none, "f"⟩, ⟨"/d/y", some 9, none, "g"⟩]
    let call (n : Int) : Call := .output (.int n) (.priority .info) (.text "a")
    let emitted (n : Int) := Direct.emitted (.single .shortFile) ⟨2024, 5, 6, 7, 8, 9, 0⟩
      ⟨call n, stack, [], .usual⟩
    emitted 2 = [Text.points "<2>:(y:9) a\n".toList] ∧
      emitted 3 = [Text.points "<2>:(???:0) a\n".toList] := by
  decide +kernel

end Logger

end LeveledLog
