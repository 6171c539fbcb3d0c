import LeveledLog.Proofs.World.Service

/-!
What lasts. A view of a program that the steps of loggers, notices and looks leave alone is left
alone by turns of anybody, however deep turns are nested in other turns.
-/

namespace LeveledLog.World

/-- A view of a program that no single step of a turn changes. -/
structure Lasting {β : Type} (view : World → β) : Prop where
  looks : ∀ (w : World) looks, view { w with looks } = view w
  active : ∀ (w : World) active, view { w with active } = view w
  note : ∀ (w : World) n, view (w.note n) = view w
  setOutlet : ∀ (w : World) o, view (w.setOutlet o) = view w
  event : ∀ (w : World) m e, view (w.event m e) = view w
  write : ∀ (w : World) m line, view (w.write m line).1 = view w

structure Keeps {β : Type} (view : World → β) (fuel : Nat) : Prop where
  settle : ∀ busy (w : World), view (World.settle fuel busy w) = view w
  worker : ∀ busy (w : World) m, view (workerTurn fuel busy w m) = view w
  announce : ∀ busy (w : World) t n s, view (World.announce fuel busy w t n s) = view w
  callAll : ∀ busy (w : World) t m cs r, view (World.callAll fuel busy w t m cs r).1 = view w

namespace Lasting

section

variable {β : Type} {view : World → β} {fuel : Nat} (l : Lasting view)

include l

theorem begin (w : World) (m : Nat) (t : Thread) (i : Invocation) :
    view (w.begin m t i) = view w :=
  (l.active _ _).trans (l.event w m _)

theorem callerTurn (w : World) (m : Nat) (t : Thread) : view (w.callerTurn m t) = view w :=
  (l.looks _ _).trans (l.event w m _)

theorem collect (w : World) (m : Nat) (t : Thread) : view (w.collect m t).1 = view w := by
  unfold World.collect
  split
  · rfl
  · exact (l.active _ _).trans (l.event w m _)

theorem ownCall (w : World) (m : Nat) (i : Invocation) : view (w.ownCall m i).1 = view w := by
  unfold World.ownCall
  split
  · rfl
  · exact (l.looks _ _).trans (l.event w m _)

theorem flush (w : World) (m : Nat) : view (w.flush m).1 = view w := by
  unfold World.flush
  split
  · split
    · rfl
    · exact l.setOutlet w _
  · rfl

theorem reportMessage (w : World) (x : Member) (d : Diagnostic) :
    view (w.reportMessage x d).1 = view w := by
  obtain ⟨looks, hlooks⟩ := report_looks w x d
  rw [hlooks]
  exact l.looks w looks

theorem settle_succ (h : Keeps view fuel) (busy : List Nat) (w : World) :
    view (World.settle (fuel + 1) busy w) = view w := by
  rw [World.settle]
  split
  · rfl
  · exact (h.settle _ _).trans (l.callerTurn w _ _)
  · exact (h.settle _ _).trans (h.worker busy w _)

theorem worker_succ (h : Keeps view fuel) (busy : List Nat) (w : World) (m : Nat) :
    view (workerTurn (fuel + 1) busy w m) = view w := by
  rw [workerTurn]
  split
  · rfl
  · rename_i x hx
    split
    · exact l.event w m _
    · rfl
    · refine (l.event _ m _).trans ((l.write _ m _).trans ?_)
      split
      · rfl
      · dsimp only
        split
        · exact (l.setOutlet _ _).trans (h.callAll _ w _ _ _ _)
        · exact h.callAll _ w _ _ _ _
    · exact (l.event _ m _).trans (l.flush w m)
    · refine (l.event _ m _).trans ?_
      split
      · exact (h.announce _ _ _ _ _).trans (l.reportMessage w x _)
      · rfl

theorem announce_succ (h : Keeps view fuel) (busy : List Nat) (w : World) (t : Thread)
    (n : Notice) (s : String) : view (World.announce (fuel + 1) busy w t n s) = view w := by
  rw [World.announce]
  split
  · exact l.note w n
  · exact (l.note _ _).trans ((h.callAll _ _ _ _ _ _).trans (l.note w n))

theorem callAll_succ (h : Keeps view fuel) (busy : List Nat) (w : World) (t : Thread) (m : Nat)
    (cs : List Call) (r : Option Outcome) :
    view (World.callAll (fuel + 1) busy w t m cs r).1 = view w := by
  cases cs with
  | nil => simp only [World.callAll]
  | cons c rest =>
    rw [World.callAll]
    split
    · rfl
    · split
      · exact (h.callAll _ _ _ _ _ _).trans (l.ownCall w m _)
      · refine (h.callAll _ _ _ _ _ _).trans ((l.collect _ m t).trans ?_)
        exact (h.settle _ _).trans (l.begin w m t _)

/-- Turns of any depth leave alone what no single step changes. -/
theorem turns (fuel : Nat) : Keeps view fuel := by
  induction fuel with
  | zero =>
    constructor
    · intro busy w
      rw [World.settle]
    · intro busy w m
      rw [workerTurn]
    · intro busy w t n s
      rw [World.announce]
    · intro busy w t m cs r
      rw [World.callAll]
  | succ fuel ih =>
    exact ⟨l.settle_succ ih, l.worker_succ ih, l.announce_succ ih, l.callAll_succ ih⟩

theorem announceSettings (w : World) (s : Settings) : view (w.announceSettings s) = view w := by
  unfold World.announceSettings
  split
  · exact (l.turns patience).announce _ w _ _ _
  · rfl

end

end Lasting

end LeveledLog.World
