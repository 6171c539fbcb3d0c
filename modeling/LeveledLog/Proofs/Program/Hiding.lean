import LeveledLog.Proofs.Logger.Apart
import LeveledLog.Proofs.Program.Changes

/-!
A program without the calls that some threads have going on. All that happens aside from these calls
happens alike in the program that lacks them, as no logger, worker or destination looks at the calls
of other threads.
-/

namespace LeveledLog

theorem Logger.unseen_hush {h : Thread → Bool} (now : Stamp) (s : State) {e : Event}
    (he : ∀ t, e.caller? = some t → h t = false) : Unseen (State.hush h) now s e where
  enabled := hush_enabled s he
  next := hush_next now s he
  caller t ht u := hush_caller u (he t ht)
  own i _ := by rw [hush_ownCall]

def Member.hush (h : Thread → Bool) (x : Member) : Member := { x with state := x.state.hush h }

/-- What it is to a program that calls of some threads are not there. -/
def hushing (h : Nat → Thread → Bool) : Change where
  state m := Logger.State.hush (h m)
  looks := 0
  notices := []
  number _ _ := rfl
  worker _ _ := rfl

namespace World

def hide (h : Nat → Thread → Bool) (w : World) : World :=
  { w with members := w.members.mapIdx fun m x => x.hush (h m) }

section

variable {h : Nat → Thread → Bool} {w : World} {m : Nat} {t : Thread}

theorem hide_changed (h : Nat → Thread → Bool) (w : World) : w.hide h = w.changed (hushing h) :=
  congrArg (fun looks => { w.hide h with looks }) (Nat.zero_add w.looks).symm

theorem hushing_new (h : Nat → Thread → Bool) (w : World) : w.New (hushing h) :=
  fun m n mode o _ => Logger.hush_initial (h m) n mode o

theorem hide_member (w : World) (m : Nat) :
    (w.hide h).members[m]? = (w.members[m]?).map (Member.hush (h m)) := by
  simp [hide, List.getElem?_mapIdx]

theorem hide_setMember (w : World) (m : Nat) (y : Member) :
    (w.hide h).setMember m (y.hush (h m)) = (w.setMember m y).hide h := by
  rw [hide_changed, hide_changed]
  exact changed_setMember w m y

theorem set_hidden {x : Member} (hx : w.members[m]? = some x) (p : Progress) (ht : h m t = true) :
    (w.setMember m { x with state := x.state.set t p }).hide h = w.hide h := by
  have hsame : Member.hush (h m) { x with state := x.state.set t p } = x.hush (h m) := by
    rw [Member.hush, Member.hush, Logger.set_hushed x.state p ht]
  have hset := set_same (w := w.hide h) (m := m) (x := x.hush (h m)) (by rw [hide_member, hx]; rfl)
  rw [← hide_setMember, hsame]
  exact congrArg (fun members => { w.hide h with members }) hset.symm

theorem hide_callerReady (w : World) (ht : h m t = false) :
    (w.hide h).callerReady m t = w.callerReady m t := by
  rw [hide_changed]
  exact changed_takes (e := .caller t) fun x _ =>
    Logger.unseen_hush _ _ (by rintro q ⟨⟩; exact ht)

theorem hide_workerReady (w : World) (m : Nat) : (w.hide h).workerReady m = w.workerReady m := by
  rw [hide_changed]
  have hunseen : ∀ x, w.members[m]? = some x →
      Logger.Unseen (.hush (h m)) w.clock x.state (.worker none) := fun x _ =>
    Logger.unseen_hush _ _ (by rintro q ⟨⟩)
  exact changed_workerReady hunseen

end

end World

namespace Program

section

variable {h : Nat → Thread → Bool} {w : World} {e : Event}

theorem hushing_overlooked
    (shown : ∀ m le t, part? w e = some (m, le) → le.caller? = some t → h m t = false) :
    Overlooked (hushing h) w e :=
  fun m le _ hp _ => Logger.unseen_hush _ _ fun t => shown m le t hp

/-- An event that is not of a hidden call may happen without the hidden calls just as well. -/
theorem hide_enabled
    (shown : ∀ m le t, part? w e = some (m, le) → le.caller? = some t → h m t = false) :
    Enabled (w.hide h) e ↔ Enabled w e := by
  rw [World.hide_changed]
  exact changed_enabled (hushing_overlooked shown)

theorem hide_next (hs : w.shape.Sound)
    (shown : ∀ m le t, part? w e = some (m, le) → le.caller? = some t → h m t = false) :
    next (w.hide h) e = (next w e).hide h := by
  rw [World.hide_changed, World.hide_changed]
  exact changed_next hs (World.hushing_new h w) (hushing_overlooked shown)

end

end Program

end LeveledLog
