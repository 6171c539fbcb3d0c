import LeveledLog.Proofs.Run
import LeveledLog.Proofs.World.Constructions

/-!
A program with several loggers as a transition system: loggers are made, the clock is set, writes
are permitted, threads call loggers, and callers and workers go on, in any order. What the making of
loggers depends on changes with the events that belong to no logger, and with no other. Notices of
the library go to no logger here.
-/

namespace LeveledLog.World

inductive Event where
  | make (source : Source) (wanted : Wanted)
  | setClock (t : Stamp)
  /-- That many more writes to a gated outlet may end. -/
  | permit (outlet : String) (n : Nat)
  | start (m : Nat) (t : Thread) (i : Invocation)
  | caller (m : Nat) (t : Thread)
  | worker (m : Nat)
  /-- A thread takes the outcome of its call and goes on with the program. -/
  | collect (m : Nat) (t : Thread)

def Event.member? : Event → Option Nat
  | .start m _ _ => some m
  | .caller m _ => some m
  | .worker m => some m
  | .collect m _ => some m
  | _ => none

def Event.shared (e : Event) : Bool := e.member?.isNone

def grant (w : World) (outlet : String) (n : Nat) : World :=
  match w.outlet? outlet with
  | some o => w.setOutlet { o with permits := o.permits + n }
  | none => w

def takes (w : World) (m : Nat) (e : Logger.Event) : Bool :=
  match w.members[m]? with
  | some x => decide (Logger.Enabled x.state e)
  | none => false

def Enabled (w : World) : Event → Prop
  | .start m t i => w.takes m (.start t i)
  | .caller m t => w.callerReady m t
  | .worker m => w.workerReady m
  | .collect m t => (w.outcomeOf? m t).isSome
  | _ => True

instance (w : World) (e : Event) : Decidable (Enabled w e) := by
  cases e <;> simp only [Enabled] <;> infer_instance

def next (w : World) : Event → World
  | .make source a => (w.construct source a).1
  | .setClock t => { w with clock := t }
  | .permit outlet n => w.grant outlet n
  | .start m t i => w.begin m t i
  | .caller m t => w.callerTurn m t
  | .worker m => workerTurn patience [] w m
  | .collect m t => (w.collect m t).1

def machine : Machine World Event := ⟨Enabled, next⟩

instance (w : World) (e : Event) : Decidable (machine.Enabled w e) :=
  inferInstanceAs (Decidable (Enabled w e))

/-- A program that has no logger yet, and whose notices go to none. -/
structure Fresh (w : World) : Prop where
  empty : w.members = []
  alone : w.target = none

section

variable {w v : World} {e : Event} {m : Nat} {name : String}

theorem Fresh.sound (h : Fresh w) : w.shape.Sound := by
  have hhomes : w.shape.homes = [] := by simp [shape, h.empty]
  have hbound : ∀ k name, ¬w.shape.Bound k name := by
    intro k name hk
    rw [Shape.Bound, hhomes] at hk
    cases hk
  refine ⟨h.alone, ?_, ?_, ?_⟩
  · intro p hp
    rw [hhomes] at hp
    cases hp
  · exact fun k name hk => absurd hk (hbound k name)
  · exact fun j k name writable hj => absurd hj (hbound j name)

theorem grant_shape (w : World) (outlet : String) (n : Nat) :
    (w.grant outlet n).shape = w.shape := by
  unfold grant
  split
  · rename_i o ho
    have hknown : w.outlet? { o with permits := o.permits + n }.name = some o := by
      rw [← outlet?_name ho] at ho
      exact ho
    exact setOutlet_shape hknown rfl
  · rfl

theorem grant_outlet? (w : World) (outlet : String) (n : Nat) (name : String) :
    (w.grant outlet n).outlet? name =
      if outlet = name then (w.outlet? name).map fun o => { o with permits := o.permits + n }
      else w.outlet? name := by
  unfold grant
  split
  · rename_i o ho
    obtain rfl : o.name = outlet := outlet?_name ho
    rw [outlet?_setOutlet]
    split
    · subst name
      rw [ho]
      rfl
    · rfl
  · rename_i hnone
    split
    · subst name
      rw [hnone]
      rfl
    · rfl

theorem grant_members (w : World) (outlet : String) (n : Nat) :
    (w.grant outlet n).members = w.members := by
  unfold grant
  split <;> rfl

theorem own_shape (hs : w.shape.Sound) (he : e.shared = false) : (next w e).shape = w.shape := by
  cases e with
  | start m t i => exact begin_shape w m t i
  | caller m t => exact caller_turn_shape w m t
  | worker m => exact (turns_shape patience).worker [] w m hs
  | collect m t => exact collect_shape w m t
  | make | setClock | permit => cases he

/-- An event that belongs to no logger does the same in two programs of one shape. -/
theorem shared_parallel (h : w.shape = v.shape) (hs : w.shape.Sound) (he : e.shared = true) :
    Parallel w v (next w e) (next v e) := by
  cases e with
  | make source a => exact (construct_agree h hs source a).2
  | setClock t =>
    refine ⟨?_, hs.grown rfl rfl (fun _ hp => hp) fun _ _ _ => rfl, ⟨[], by simp [next]⟩,
      fun _ hname => hname⟩
    exact congrArg (fun g : Shape => { g with clock := t }) h
  | permit outlet n =>
    refine ⟨?_, ?_, ⟨[], ?_, ?_⟩, fun name hname => ?_⟩
    · rw [next, next, grant_shape, grant_shape, h]
    · rw [next, grant_shape]
      exact hs
    · rw [next, grant_members, List.append_nil]
    · rw [next, grant_members, List.append_nil]
    · rw [next, next, grant_outlet?, grant_outlet?, hname]
  | start | caller | worker | collect => cases he

theorem next_sound (hs : w.shape.Sound) (e : Event) : (next w e).shape.Sound := by
  cases he : e.shared with
  | true => exact (shared_parallel rfl hs he).sound
  | false =>
    rw [own_shape hs he]
    exact hs

/-- Loggers are never taken away, or moved. -/
theorem next_homes (hs : w.shape.Sound) (e : Event) :
    w.shape.homes <+: (next w e).shape.homes := by
  cases he : e.shared with
  | true =>
    obtain ⟨new, hnew, -⟩ := (shared_parallel rfl hs he).members
    refine ⟨new.map fun x => x.destination.home, ?_⟩
    simp [shape, hnew]
  | false => exact ⟨[], by rw [List.append_nil, own_shape hs he]⟩

theorem run_sound (hs : w.shape.Sound) (es : List Event) :
    (machine.after w es).shape.Sound := by
  induction es generalizing w with
  | nil => exact hs
  | cons e es ih => exact ih (next_sound hs e)

/-- The shape of the program comes from the events that belong to no logger. -/
theorem run_shape (h : w.shape = v.shape) (hs : w.shape.Sound) (es : List Event) :
    (machine.after w es).shape = (machine.after v (es.filter Event.shared)).shape := by
  induction es generalizing w v with
  | nil => exact h
  | cons e es ih =>
    cases he : e.shared with
    | true =>
      rw [List.filter_cons_of_pos he]
      exact ih (shared_parallel h hs he).shape (next_sound hs e)
    | false =>
      rw [List.filter_cons_of_neg (by simp [he])]
      exact ih ((own_shape hs he).trans h) (next_sound hs e)

end

end LeveledLog.World
