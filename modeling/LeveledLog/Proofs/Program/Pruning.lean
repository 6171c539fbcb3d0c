import LeveledLog.Proofs.Program.Hiding
import LeveledLog.Proofs.World.Isolation

/-!
Programs without some of their calls. Some of the leveled calls in a run are marked as they begin,
any of those that turn out to be below the threshold when it is read. The run without their steps is
a run too. It gets the same answers, and ends with the same program.
-/

namespace LeveledLog

namespace Program

open World (Fresh)

structure Marked where
  event : Event
  out : Bool

/-- A program, and which calls that it has going on are to be left out. -/
structure Pruned where
  world : World
  hidden : Nat → Thread → Bool

def nobody : Nat → Thread → Bool := fun _ _ => false

def mark (h : Nat → Thread → Bool) (m : Nat) (t : Thread) (b : Bool) : Nat → Thread → Bool :=
  fun k q => if k = m ∧ q = t then b else h k q

/-- Whose calls are left out after an event. A call ends with its outcome being taken. -/
def hides (h : Nat → Thread → Bool) (e : Marked) : Nat → Thread → Bool :=
  match e.event with
  | .start m t _ => if e.out then mark h m t true else h
  | .collect m t => mark h m t false
  | _ => h

def leftOut (h : Nat → Thread → Bool) (e : Marked) : Bool :=
  match e.event with
  | .start _ _ _ => e.out
  | .caller m t => h m t
  | .collect m t => h m t
  | _ => false

/-- What a thread is about to decide at a logger comes out against its call. -/
def Drops (w : World) (m : Nat) (t : Thread) : Prop :=
  match w.members[m]? with
  | none => False
  | some x =>
    match x.state.callers t with
    | .deciding _ l => x.state.options.loggable l.priority = false
    | _ => False

instance (w : World) (m : Nat) (t : Thread) : Decidable (Drops w m t) := by
  unfold Drops
  split
  · infer_instance
  · split <;> infer_instance

theorem drops_iff {w : World} {m : Nat} {t : Thread} :
    Drops w m t ↔ ∃ x i l, w.members[m]? = some x ∧ x.state.callers t = .deciding i l ∧
      x.state.options.loggable l.priority = false := by
  unfold Drops
  cases w.members[m]? with
  | none => simp
  | some x => cases hp : x.state.callers t <;> simp [hp]

def isLeveled : Call → Bool
  | .leveled _ _ _ => true
  | _ => false

/-- Which calls may be left out: leveled ones whose level is below the threshold when it is read. -/
def Omissible (s : Pruned) (e : Marked) : Prop :=
  match e.event with
  | .start _ _ i => isLeveled i.call = true
  | .caller m t => Drops s.world m t
  | _ => True

instance (s : Pruned) (e : Marked) : Decidable (Omissible s e) := by
  unfold Omissible
  split <;> infer_instance

def pruning : Machine Pruned Marked where
  Enabled s e := Enabled s.world e.event ∧ (leftOut s.hidden e = true → Omissible s e)
  next s e := ⟨next s.world e.event, hides s.hidden e⟩

instance (s : Pruned) (e : Marked) : Decidable (pruning.Enabled s e) :=
  inferInstanceAs
    (Decidable (Enabled s.world e.event ∧ (leftOut s.hidden e = true → Omissible s e)))

def kept (s : Pruned) (e : Marked) : List Event :=
  if leftOut s.hidden e then [] else [e.event]

def remaining (w : World) (es : List Marked) : List Event := pruning.history kept ⟨w, nobody⟩ es

/-- What a program is told: by the making of a logger, by a call that has ended, and by a call of a
worker. -/
inductive Reply where
  | made (result : Except Fault Nat)
  | answered (m : Nat) (t : Thread) (outcome : Option Outcome)
  | own (m : Nat) (outcome : Option Outcome)

def replies (w : World) : Event → List Reply
  | .make source a => [.made (w.construct source a).2]
  | .collect m t => [.answered m t (w.outcomeOf? m t)]
  | .ownCall m i => [.own m (w.ownCall m i).2]
  | _ => []

def otherReplies (s : Pruned) (e : Marked) : List Reply :=
  if leftOut s.hidden e then [] else replies s.world e.event

/-- How far a call has come that is left out: it is before its decision, or it has ended. -/
def Muted (w : World) (m : Nat) (t : Thread) : Prop :=
  ∃ x, w.members[m]? = some x ∧
    ((∃ i l, x.state.callers t = .deciding i l) ∨
      x.state.callers t = .done (.returned .none) 0)

def Pruned.rest (s : Pruned) : World := s.world.hide s.hidden

structure Pruned.Sound (s : Pruned) : Prop where
  shape : s.world.shape.Sound
  muted : ∀ m t, s.hidden m t = true → Muted s.world m t

section

variable {h : Nat → Thread → Bool} {m : Nat} {t : Thread} {w : World} {x : Member}

theorem mark_same (h : Nat → Thread → Bool) (m : Nat) (t : Thread) (b : Bool) :
    mark h m t b m t = b := if_pos ⟨rfl, rfl⟩

theorem mark_self {b : Bool} (hb : h m t = b) : mark h m t b = h := by
  funext k q
  by_cases hkq : k = m ∧ q = t
  · rw [mark, if_pos hkq, hkq.1, hkq.2, hb]
  · rw [mark, if_neg hkq]

/-- Whether the call of an idle thread is hidden makes no difference. -/
theorem hide_mark {b : Bool} (hx : w.members[m]? = some x) (idle : x.state.callers t = .idle) :
    w.hide (mark h m t b) = w.hide h := by
  have hmembers : (w.members.mapIdx fun k y => y.hush (mark h m t b k)) =
      w.members.mapIdx fun k y => y.hush (h k) := by
    apply List.ext_getElem?
    intro k
    rw [List.getElem?_mapIdx, List.getElem?_mapIdx]
    by_cases hk : k = m
    · subst hk
      have hcallers : (fun q => if mark h k t b k q then Progress.idle else x.state.callers q) =
          fun q => if h k q then Progress.idle else x.state.callers q := by
        funext q
        by_cases hq : q = t
        · rw [hq, idle, ite_self, ite_self]
        · have hrest : mark h k t b k q = h k q := if_neg fun hkq => hq hkq.2
          rw [hrest]
      have hstate : x.state.hush (mark h k t b k) = x.state.hush (h k) :=
        congrArg (fun callers => { x.state with callers }) hcallers
      rw [hx, Option.map_some, Option.map_some, Member.hush, Member.hush, hstate]
    · have hrest : mark h m t b k = h k := by
        funext q
        rw [mark, if_neg fun hkq => hk hkq.1]
      rw [hrest]
  exact congrArg (fun members => { w with members }) hmembers

theorem hide_nobody (w : World) : w.hide nobody = w := by
  have hmembers : (w.members.mapIdx fun k y => y.hush (nobody k)) = w.members := by
    apply List.ext_getElem?
    intro k
    rw [List.getElem?_mapIdx]
    cases w.members[k]? <;> rfl
  exact congrArg (fun members => { w with members }) hmembers

theorem event_set (hx : w.members[m]? = some x) (le : Logger.Event) {p : Progress}
    (hnext : Logger.next w.clock x.state le = x.state.set t p) :
    w.event m le = w.setMember m { x with state := x.state.set t p } := by
  simp only [World.event, hx, hnext]

theorem begin_leveled {i : Invocation} (h : isLeveled i.call = true) :
    ∃ l, Logger.begin i = .deciding i l := by
  unfold Logger.begin
  cases hc : i.call with
  | leveled l format args => exact ⟨l, rfl⟩
  | _ =>
    rw [hc] at h
    cases h

/-- A call below the threshold ends with its decision, and nothing has been looked at. -/
theorem drop_turn {i : Invocation} {l : Level} (hx : w.members[m]? = some x)
    (deciding : x.state.callers t = .deciding i l)
    (low : x.state.options.loggable l.priority = false) :
    w.callerTurn m t =
      w.setMember m { x with state := x.state.set t (.done (.returned .none) 0) } := by
  have hnext : Logger.next w.clock x.state (.caller t) =
      x.state.set t (.done (.returned .none) 0) := by
    rw [Logger.next, deciding, Logger.callerStep, low]
    rfl
  have hevent := event_set hx _ hnext
  have hlooks : (w.event m (.caller t)).looksOf m t = 0 := by
    rw [hevent]
    simp only [World.looksOf, World.setMember_self hx, Logger.set_callers, update_same]
  rw [World.callerTurn]
  simp only [hlooks, Nat.zero_sub, Nat.add_zero]
  exact hevent

end

section

variable {s : Pruned} {e : Marked}

/-- An event that is not left out is of no call that is left out. -/
theorem shown_of_kept (hs : s.Sound) (he : Enabled s.world e.event)
    (hout : leftOut s.hidden e = false) (m : Nat) (le : Logger.Event) (t : Thread)
    (hp : part? s.world e.event = some (m, le)) (ht : le.caller? = some t) :
    s.hidden m t = false := by
  obtain ⟨event, out⟩ := e
  cases event with
  | start k q i =>
    cases hp
    cases ht
    by_contra hidden
    -- A thread whose call is left out is not idle, so it begins no other.
    obtain ⟨x, hx, muted⟩ := hs.muted m t (Bool.eq_true_of_not_eq_false hidden)
    have idle := Logger.isIdle_iff.mp (enabled_of_takes hx he).2
    rcases muted with ⟨j, l, hd⟩ | hd <;> rw [idle] at hd <;> cases hd
  | caller k q =>
    cases hp
    cases ht
    exact hout
  | collect k q =>
    cases hp
    cases ht
    exact hout
  | worker | ownCall =>
    cases hp
    cases ht
  | make | setClock | permit | disturb | note | remark => cases hp

theorem hides_of_kept (hout : leftOut s.hidden e = false) : hides s.hidden e = s.hidden := by
  obtain ⟨event, out⟩ := e
  cases event with
  | start m t i => exact if_neg (ne_true_of_eq_false hout)
  | collect m t => exact mark_self hout
  | _ => rfl

/-- What an event of a call that is left out finds, and what it leaves. The call goes on, and
nothing else happens. -/
inductive Silent (s : Pruned) : Event → Pruned → Prop where
  | begins {m t i l x} (member : s.world.members[m]? = some x)
      (idle : x.state.callers t = .idle) :
      Silent s (.start m t i)
        ⟨s.world.setMember m { x with state := x.state.set t (.deciding i l) },
          mark s.hidden m t true⟩
  | drops {m t x} (member : s.world.members[m]? = some x) (hidden : s.hidden m t = true) :
      Silent s (.caller m t)
        ⟨s.world.setMember m { x with state := x.state.set t (.done (.returned .none) 0) },
          s.hidden⟩
  | ends {m t x} (member : s.world.members[m]? = some x) (hidden : s.hidden m t = true)
      (outcome : s.world.outcomeOf? m t = some (.returned .none)) :
      Silent s (.collect m t)
        ⟨s.world.setMember m { x with state := x.state.set t .idle }, mark s.hidden m t false⟩

theorem left_out_silent (hs : s.Sound) (he : pruning.Enabled s e)
    (hout : leftOut s.hidden e = true) : Silent s e.event (pruning.next s e) := by
  obtain ⟨hready, homits⟩ := he
  have homit := homits hout
  obtain ⟨event, out⟩ := e
  cases event with
  | start m t i =>
    obtain rfl : out = true := hout
    obtain ⟨x, hx⟩ := member_of_takes hready
    have idle := Logger.isIdle_iff.mp (enabled_of_takes hx hready).2
    obtain ⟨l, hbegin⟩ := begin_leveled homit
    have hnext := event_set hx (.start t i) (congrArg (x.state.set t) hbegin)
    have hworld : pruning.next s ⟨.start m t i, true⟩ =
        ⟨s.world.setMember m { x with state := x.state.set t (.deciding i l) },
          mark s.hidden m t true⟩ := by
      rw [← hnext]
      rfl
    rw [hworld]
    exact .begins hx idle
  | caller m t =>
    obtain ⟨x, i, l, hx, deciding, low⟩ := drops_iff.mp homit
    have hworld : pruning.next s ⟨.caller m t, out⟩ =
        ⟨s.world.setMember m { x with state := x.state.set t (.done (.returned .none) 0) },
          s.hidden⟩ := by
      rw [← drop_turn hx deciding low]
      rfl
    rw [hworld]
    exact .drops hx hout
  | collect m t =>
    obtain ⟨x, hx, muted⟩ := hs.muted m t hout
    obtain ⟨outcome, looks, hdone⟩ := Logger.isDone_iff.mp (enabled_of_takes hx hready)
    have houtcome : s.world.outcomeOf? m t = some (.returned .none) := by
      rcases muted with ⟨i, l, hd⟩ | hd
      · rw [hdone] at hd
        cases hd
      · simp only [World.outcomeOf?, hx, hd]
    have hnext := event_set hx (.collect t) rfl
    have hworld : pruning.next s ⟨.collect m t, out⟩ =
        ⟨s.world.setMember m { x with state := x.state.set t .idle },
          mark s.hidden m t false⟩ := by
      rw [← hnext]
      rfl
    rw [hworld]
    exact .ends hx hout houtcome
  | make | setClock | permit | disturb | note | remark | worker | ownCall => cases hout

end

section

variable {s u : Pruned} {e : Event}

theorem Silent.rest (h : Silent s e u) : u.rest = s.rest := by
  cases h with
  | @begins m t i l x member idle =>
    exact (World.set_hidden member _ (mark_same _ m t true)).trans (hide_mark member idle)
  | drops member hidden => exact World.set_hidden member _ hidden
  | @ends m t x member hidden outcome =>
    have hself := World.setMember_self (y := { x with state := x.state.set t .idle }) member
    exact (hide_mark hself (update_same _ _ _)).trans (World.set_hidden member _ hidden)

theorem Muted.set {w : World} {m k : Nat} {t q : Thread} {x : Member} {p : Progress}
    (member : w.members[m]? = some x) (apart : ¬(k = m ∧ q = t)) (h : Muted w k q) :
    Muted (w.setMember m { x with state := x.state.set t p }) k q := by
  obtain ⟨y, hy, muted⟩ := h
  by_cases hk : k = m
  · subst hk
    obtain rfl : x = y := Option.some.inj (member.symm.trans hy)
    have hcallers : (x.state.set t p).callers q = x.state.callers q :=
      update_other _ _ fun hq => apart ⟨rfl, hq⟩
    exact ⟨_, World.setMember_self member, by rw [hcallers]; exact muted⟩
  · exact ⟨y, (World.setMember_other hk).trans hy, muted⟩

theorem Silent.muted (h : Silent s e u) (hs : ∀ m t, s.hidden m t = true → Muted s.world m t)
    (k : Nat) (q : Thread) (hkq : u.hidden k q = true) : Muted u.world k q := by
  cases h with
  | @begins m t i l x member idle =>
    by_cases hself : k = m ∧ q = t
    · obtain ⟨rfl, rfl⟩ := hself
      exact ⟨_, World.setMember_self member, .inl ⟨i, l, update_same _ _ _⟩⟩
    · exact (hs k q (by simpa [mark, hself] using hkq)).set member hself
  | @drops m t x member hidden =>
    by_cases hself : k = m ∧ q = t
    · obtain ⟨rfl, rfl⟩ := hself
      exact ⟨_, World.setMember_self member, .inr (update_same _ _ _)⟩
    · exact (hs k q hkq).set member hself
  | @ends m t x member hidden outcome =>
    have hself : ¬(k = m ∧ q = t) := by
      rintro ⟨rfl, rfl⟩
      exact Bool.false_ne_true ((mark_same s.hidden k q false).symm.trans hkq)
    exact (hs k q (by simpa [mark, hself] using hkq)).set member hself

theorem Muted.kept {w : World} {k : Nat} {q : Thread} (h : Muted w k q) (hs : w.shape.Sound)
    (he : Enabled w e) (other : ∀ le, part? w e = some (k, le) → le.caller? ≠ some q) :
    Muted (next w e) k q := by
  obtain ⟨x, hx, muted⟩ := h
  cases hp : part? w e with
  | none => exact ⟨x, next_shared hs.alone hp hx, muted⟩
  | some p =>
    obtain ⟨m, le⟩ := p
    by_cases hk : k = m
    · subst hk
      obtain ⟨-, d, hnext⟩ := next_own hs he hx hp
      refine ⟨_, hnext, ?_⟩
      rw [Logger.next_callers w.clock x.state (other le hp)]
      exact muted
    · exact ⟨x, (next_other hp hk).trans hx, muted⟩

end

section

variable {s : Pruned} {e : Marked} {w : World} {es : List Marked}

theorem pruning_sound (he : pruning.Enabled s e) (hs : s.Sound) : (pruning.next s e).Sound := by
  have hshape := next_sound hs.shape e.event
  cases hout : leftOut s.hidden e with
  | true => exact ⟨hshape, (left_out_silent hs he hout).muted hs.muted⟩
  | false =>
    refine ⟨hshape, fun k q hkq => ?_⟩
    have hidden : s.hidden k q = true := (hides_of_kept hout) ▸ hkq
    refine (hs.muted k q hidden).kept hs.shape he.1 fun le hp hq => ?_
    have hshown := shown_of_kept hs he.1 hout k le q hp hq
    rw [hidden] at hshown
    cases hshown

/-- Each event of the program is one without the calls that are left out, or none. -/
theorem pruning_step (hs : s.Sound) (he : pruning.Enabled s e) :
    machine.Valid s.rest (kept s e) ∧
      machine.after s.rest (kept s e) = (pruning.next s e).rest := by
  unfold kept
  cases hout : leftOut s.hidden e with
  | true => exact ⟨trivial, (left_out_silent hs he hout).rest.symm⟩
  | false =>
    have hshown := shown_of_kept hs he.1 hout
    have hhidden : (pruning.next s e).hidden = s.hidden := hides_of_kept hout
    rw [Pruned.rest, Pruned.rest, hhidden]
    exact ⟨⟨(hide_enabled hshown).mpr he.1, trivial⟩, hide_next hs.shape hshown⟩

theorem changed_replies {c : Change} {e : Event} (hs : w.shape.Sound) (new : w.New c)
    (overlooked : Overlooked c w e) : replies (w.changed c) e = replies w e := by
  cases e with
  | make source a => rw [replies, replies, World.changed_construct new hs.alone]; rfl
  | collect m t =>
    have houtcome : (w.changed c).outcomeOf? m t = w.outcomeOf? m t := by
      cases hx : w.members[m]? with
      | none => simp only [World.outcomeOf?, World.changed_member, hx, Option.map_none]
      | some x => exact World.changed_outcome w ((overlooked m _ x rfl hx).caller t rfl)
    rw [replies, replies, houtcome]
  | ownCall m i =>
    have hcall := World.changed_ownCall fun x hx => overlooked m _ x rfl hx
    rw [replies, replies, hcall]
    rfl
  | setClock | permit | disturb | note | remark | start | caller | worker => rfl

theorem run_replies {c : Change} {es : List Event} (hs : w.shape.Sound) (new : w.New c)
    (overlooked : ∀ before e rest, es = before ++ e :: rest →
      Overlooked c (machine.after w before) e) :
    machine.history replies (w.changed c) es = machine.history replies w es := by
  induction es generalizing w with
  | nil => rfl
  | cons e es ih =>
    have hnow := overlooked [] e es rfl
    have hnext : machine.next (w.changed c) e = (machine.next w e).changed c :=
      changed_next hs new hnow
    rw [Machine.history, Machine.history, changed_replies hs new hnow, hnext]
    exact congrArg (replies w e ++ ·) (ih (next_sound hs e) (next_new hs new e)
      fun before e' rest hes => overlooked (e :: before) e' rest (by rw [hes]; rfl))

/-- A change that nobody sees makes no difference to a run. -/
theorem run_overlooked {c : Change} {es : List Event} (hs : w.shape.Sound) (new : w.New c)
    (overlooked : ∀ before e rest, es = before ++ e :: rest →
      Overlooked c (machine.after w before) e) :
    (machine.Valid (w.changed c) es ↔ machine.Valid w es) ∧
      machine.after (w.changed c) es = (machine.after w es).changed c ∧
      machine.history replies (w.changed c) es = machine.history replies w es := by
  obtain ⟨hvalid, hafter⟩ := run_changed hs new overlooked
  exact ⟨hvalid, hafter, run_replies hs new overlooked⟩

theorem pruning_replies (hs : s.Sound) (he : pruning.Enabled s e) :
    machine.history replies s.rest (kept s e) = otherReplies s e := by
  unfold kept otherReplies
  cases hout : leftOut s.hidden e with
  | true => rfl
  | false =>
    have hoverlooked := hushing_overlooked (shown_of_kept hs he.1 hout)
    have hreplies := changed_replies hs.shape (World.hushing_new _ _) hoverlooked
    rw [← World.hide_changed] at hreplies
    exact (List.append_nil _).trans hreplies

theorem fresh_sound (fresh : Fresh w) : Pruned.Sound ⟨w, nobody⟩ :=
  ⟨fresh.sound, fun _ _ hidden => by cases hidden⟩

structure Undisturbed (x y : Member) : Prop where
  destination : x.destination = y.destination
  settings : x.state.options = y.state.options
  channel : x.state.channel = y.state.channel
  attempts : x.state.attempts = y.state.attempts
  diagnostics : x.state.diagnostics = y.state.diagnostics
  ownOutcomes : x.state.ownOutcomes = y.state.ownOutcomes

/-- All of a program that anything but a call can show. -/
structure SameAround (w v : World) : Prop where
  outlets : w.outlets = v.outlets
  files : w.files = v.files
  network : w.network = v.network
  notices : w.notices = v.notices
  looks : w.looks = v.looks
  loggers : ∀ (m : Nat) (x : Member), v.members[m]? = some x →
    ∃ y, w.members[m]? = some y ∧ Undisturbed y x

theorem hide_around (h : Nat → Thread → Bool) (w : World) : SameAround (w.hide h) w := by
  refine ⟨rfl, rfl, rfl, rfl, rfl, fun m x hx => ⟨x.hush (h m), ?_, rfl, rfl, rfl, rfl, rfl, rfl⟩⟩
  rw [World.hide_member, hx, Option.map_some]

structure Unnoticed (w : World) (es : List Marked) : Prop where
  valid : machine.Valid w (remaining w es)
  /-- The programs differ only in the calls that are left out and have not ended yet. -/
  same : machine.after w (remaining w es) = (pruning.after ⟨w, nobody⟩ es).rest
  around : SameAround (machine.after w (remaining w es)) (pruning.after ⟨w, nobody⟩ es).world
  replies : machine.history replies w (remaining w es) =
    pruning.history otherReplies ⟨w, nobody⟩ es
  /-- What is left out does nothing but return none; it is not even looked at. -/
  silent : ∀ before e rest, es = before ++ e :: rest →
    leftOut (pruning.after ⟨w, nobody⟩ before).hidden e = true →
    Silent (pruning.after ⟨w, nobody⟩ before) e.event
      (pruning.next (pruning.after ⟨w, nobody⟩ before) e)

theorem pruned_unnoticed (fresh : Fresh w) (h : pruning.Valid ⟨w, nobody⟩ es) :
    Unnoticed w es := by
  have hs := fresh_sound fresh
  have hkeeps : ∀ s e, pruning.Enabled s e → s.Sound → (pruning.next s e).Sound :=
    fun s e he hs => pruning_sound he hs
  have hrun : machine.Valid (Pruned.rest ⟨w, nobody⟩) (pruning.history kept ⟨w, nobody⟩ es) ∧
      machine.after (Pruned.rest ⟨w, nobody⟩) (pruning.history kept ⟨w, nobody⟩ es) =
        (pruning.after ⟨w, nobody⟩ es).rest :=
    Machine.run_simulated hkeeps (fun s e (hs : s.Sound) (_ : True) he => pruning_step hs he) hs h
      fun _ _ => trivial
  have hreplies : machine.history replies (Pruned.rest ⟨w, nobody⟩)
      (pruning.history kept ⟨w, nobody⟩ es) = pruning.history otherReplies ⟨w, nobody⟩ es :=
    Machine.history_simulated hkeeps
      (fun s e (hs : s.Sound) (_ : True) he => (pruning_step hs he).2)
      (fun s e hs _ he => pruning_replies hs he) hs h fun _ _ => trivial
  have hstart : Pruned.rest ⟨w, nobody⟩ = w := hide_nobody w
  rw [hstart] at hrun hreplies
  refine ⟨hrun.1, hrun.2, hrun.2 ▸ hide_around _ _, hreplies, ?_⟩
  rintro before e rest rfl hout
  obtain ⟨hbefore, hnext, -⟩ := (pruning.valid_append _ _ _).mp h
  exact left_out_silent (Machine.run_keeps hkeeps hbefore hs) hnext hout

end

end Program

end LeveledLog
