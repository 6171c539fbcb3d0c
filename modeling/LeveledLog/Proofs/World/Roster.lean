import LeveledLog.Proofs.World.Activation
import LeveledLog.Proofs.World.Names

/-!
The loggers of a program in the order in which they were made. Whatever fails in between, and
whatever is done with the loggers in the meantime, their workers are numbered from one on without a
gap. The events that make loggers are told apart from those that only try to.
-/

namespace LeveledLog

def Member.name (x : Member) : String := World.workerName x.state.number

namespace World

open Route

structure Made where
  environment : List (String × String)
  source : Source
  wanted : Wanted
  mode : Mode
  member : Member

/-- A new logger has done nothing yet, and has the only options that grant what was asked for. -/
def Made.AsAsked (made : Made) : Prop :=
  ∃ route r o d, Reads made.environment made.source made.wanted route r ∧
    (∀ o', Granted r route.added o' ↔ o' = o) ∧
    made.member = ⟨Logger.initial made.member.state.number made.mode o, d⟩

def makings (w : World) : Event → List Made
  | .make source a =>
    match w.construct source a with
    | (u, .ok m) => (u.members[m]?).toList.map fun x =>
      ⟨w.environment, source, a, u.modeOf x.destination, x⟩
    | (_, .error _) => []
  | _ => []

def workerNames (n : Nat) : List String :=
  (List.range n).map fun k => "lvlog-worker-" ++ toString (k + 1)

structure Roster (w : World) (es : List Event) : Prop where
  steps : ∀ before source a rest, es = before ++ .make source a :: rest →
    AllOrNothing (machine.after w before) source a
  named : (machine.history makings w es).map (fun made => made.member.name) =
    workerNames (machine.history makings w es).length
  asked : ∀ made ∈ machine.history makings w es, made.AsAsked
  /-- There are no other loggers, and none is renamed. -/
  kept : (machine.after w es).members.map Member.name =
    (machine.history makings w es).map fun made => made.member.name

section

variable {w : World} {es : List Event} {e : Event}

theorem next_numbers (he : ∀ source a, e ≠ .make source a) : (next w e).numbers = w.numbers := by
  cases e with
  | make source a => exact absurd rfl (he source a)
  | setClock t => rfl
  | permit outlet n =>
    rw [numbers, next, grant_members]
    rfl
  | start m t i => exact event_numbers w m _
  | caller m t => exact event_numbers w m _
  | worker m => exact (turns_numbers patience).worker [] w m
  | collect m t => exact collect_numbers w m t

theorem makings_cases (alone : w.target = none) (e : Event) :
    (makings w e = [] ∧ (next w e).numbers = w.numbers) ∨
      ∃ made : Made, makings w e = [made] ∧ made.AsAsked ∧
        made.member.state.number = w.members.length + 1 ∧
        (next w e).numbers = w.numbers ++ [w.members.length + 1] := by
  by_cases he : ∃ source a, e = .make source a
  · obtain ⟨source, a, rfl⟩ := he
    obtain ⟨hrefused, hmade⟩ := construct_all_or_nothing alone source a
    rw [makings, next]
    rcases hconstruct : w.construct source a with ⟨u, f | m⟩ <;>
      rw [hconstruct] at hrefused hmade
    · left
      refine ⟨rfl, ?_⟩
      rw [numbers, (hrefused f rfl).members, numbers]
    · right
      obtain ⟨route, r, hreads, hnext, o, d, hgranted, hmembers⟩ := hmade m rfl
      dsimp only at hmembers
      subst hnext
      have honly : ∀ o', Granted r route.added o' ↔ o' = o := by
        intro o'
        constructor
        · intro h
          exact h.unique hgranted
        · rintro rfl
          exact hgranted
      refine ⟨⟨w.environment, source, a, u.modeOf d,
          ⟨Logger.initial (w.members.length + 1) (u.modeOf d) o, d⟩⟩, ?_,
        ⟨route, r, o, d, hreads, honly, rfl⟩, rfl, ?_⟩
      · simp [hmembers]
      · simp [numbers, hmembers, Logger.initial]
  · left
    have hother : ∀ source a, e ≠ .make source a := fun source a h => he ⟨source, a, h⟩
    refine ⟨?_, next_numbers hother⟩
    cases e with
    | make source a => exact absurd rfl (hother source a)
    | _ => rfl

structure InOrder (u : World) (made : List Made) : Prop where
  sound : u.shape.Sound
  consecutive : u.numbers = List.range' 1 made.length
  same : made.map (fun x => x.member.state.number) = u.numbers
  asked : ∀ x ∈ made, x.AsAsked

theorem InOrder.next {u : World} {made : List Made} (h : InOrder u made) (e : Event) :
    InOrder (World.next u e) (made ++ makings u e) := by
  refine ⟨next_sound h.sound e, ?_, ?_, ?_⟩
  all_goals rcases makings_cases h.sound.alone e with
    ⟨hnone, hsame⟩ | ⟨x, hmade, hasked, hnumber, hmore⟩
  · rw [hnone, hsame, List.append_nil]
    exact h.consecutive
  · have hlength : u.members.length = made.length := by
      simpa [numbers] using congrArg List.length h.consecutive
    rw [hmade, hmore, h.consecutive, hlength, List.length_append, List.length_singleton,
      List.range'_1_concat, Nat.add_comm]
  · rw [hnone, hsame, List.append_nil]
    exact h.same
  · rw [hmade, hmore, List.map_append, h.same, List.map_singleton, hnumber]
  · rw [hnone, List.append_nil]
    exact h.asked
  · rw [hmade]
    intro y hy
    rcases List.mem_append.mp hy with hy | hy
    · exact h.asked y hy
    · rw [List.mem_singleton.mp hy]
      exact hasked

theorem run_in_order (fresh : Fresh w) (h : machine.Valid w es) :
    InOrder (machine.after w es) (machine.history makings w es) := by
  refine Machine.history_induction (I := InOrder) ?_ ?_ h
  · refine ⟨fresh.sound, ?_, ?_, ?_⟩
    · simp [numbers, fresh.empty]
    · simp [numbers, fresh.empty]
    · simp
  · intro es e _ _ ih
    exact ih.next e

theorem InOrder.names {u : World} {made : List Made} (h : InOrder u made) :
    u.members.map Member.name = workerNames made.length := by
  have hnames : u.members.map Member.name = u.numbers.map workerName := by
    rw [numbers, List.map_map]
    rfl
  rw [hnames, h.consecutive, List.range'_eq_map_range, List.map_map, workerNames]
  refine List.map_congr_left fun k _ => ?_
  rw [Function.comp_apply, workerName, Nat.add_comm]

end

/-- Two loggers and three failures between them: no such rank, no system log, no such priority. -/
def mixedAttempts : List Event :=
  [.make (.outlet (Outlet.plain "a" .text)) ⟨.bool true, .text "", .flags .standard⟩,
    .make (.file (.text "log")) unranked,
    .make (.named (.text "Syslog")) Wanted.standard,
    .worker 0,
    .make (.settings [("priority", .text "loud")]) Wanted.standard,
    .make (.named (.text "log")) ⟨.int 5, .text "> ", .int 19⟩]

end World

end LeveledLog
