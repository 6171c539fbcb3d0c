import LeveledLog.Proofs.Logger.Meaning
import LeveledLog.Proofs.Program.Pruning
import LeveledLog.Proofs.Settings.Meaning

/-!
Only the bits of header options that have a meaning matter. A logger gets header options from an
integer when it is made, or when a thread or its own worker assigns them. Nothing that comes after
tells the integer from its remainder, until header options are assigned again.
-/

namespace LeveledLog

open Render (Fails ensures_bind ensures_throw)
open World (Fresh)

namespace Logger

theorem meaningful_number (s : State) : s.meaningful.number = s.number := rfl

theorem meaningful_worker (s : State) : s.meaningful.worker = s.worker := rfl

theorem unseen_meaningful (now : Stamp) (s : State) {e : Event} (h : ¬AssignsFlags s e) :
    Unseen State.meaningful now s e where
  enabled := enabled_meaningful s
  next := next_meaningful s now h
  caller _ _ _ := rfl
  own i hi := by
    subst hi
    have hcall : ¬i.call.AssignsFlags i.host.made := fun hassigns => h ⟨i, rfl, hassigns⟩
    rw [ownCall_meaningful s now hcall]

theorem unseen_set (now : Stamp) (s : State) (p : Progress) {t : Thread} {e : Event}
    (he : e.caller? ≠ some t) : Unseen (fun u => u.set t p) now s e where
  enabled := enabled_apart s p he
  next := next_apart p he
  caller r hr u := by
    refine update_other _ _ ?_
    rintro rfl
    exact he hr
  own i _ := by
    have hhushed : (s.set t p).hush (· = t) = s.hush (· = t) := set_hushed s p (decide_eq_true rfl)
    have hset := hush_ownCall (· = t) (s.set t p) now i
    rw [hhushed, hush_ownCall (· = t) s now i] at hset
    exact (congrArg Prod.snd hset).symm

def State.assigned (s : State) (f : Flags) : State :=
  { s with options := { s.options with flags := f } }

section

variable {s : State} {now : Stamp} {v : Value} {f : Flags} {stack : Stack} {streams : List Stream}
  {host : Host}

theorem make_assigned (h : Flags.ofValue host.made v = pure f) (o : Options) :
    Plan.make o now ⟨.setFlags v, stack, streams, host⟩ =
      pure ({ o with flags := f }, .ofTasks []) := by
  have hmake : Plan.make o now ⟨.setFlags v, stack, streams, host⟩ =
      Flags.ofValue host.made v >>= fun f => pure ({ o with flags := f }, .ofTasks []) := rfl
  rw [hmake, h, pure_bind]

theorem compose_assigned (h : Flags.ofValue host.made v = pure f) (t : Thread) :
    compose s now t ⟨.setFlags v, stack, streams, host⟩ =
      (s.assigned f).set t (.handing [] (.value .none) 0) := by
  rw [compose, make_assigned h]
  rfl

theorem ownCall_assigned (h : Flags.ofValue host.made v = pure f) :
    ownCall s now ⟨.setFlags v, stack, streams, host⟩ = (s.assigned f, .returned .none, 0) := by
  rw [ownCall, make_assigned h]
  rfl

end

end Logger

namespace World

def stripped (m : Nat) (w : World) : World :=
  w.changed (.only m Logger.State.meaningful Logger.meaningful_number Logger.meaningful_worker)

section

variable {w : World} {m : Nat} {x : Member} {i : Int} {v : Value} {a : Wanted}

theorem setMember_stripped (w : World) (z : Member) :
    (w.setMember m z).stripped m = w.setMember m (z.changed Logger.State.meaningful) :=
  setMember_only w z

/-! ### Making a logger -/

theorem add_stripped (w : World) (o : Options) (d : Destination) :
    (w.add o d).1.stripped w.members.length = (w.add o.meaningful d).1 := by
  have hself : (w.add o d).1.members[w.members.length]? =
      some ⟨Logger.initial (w.members.length + 1) (w.modeOf d) o, d⟩ := List.getElem?_concat_length
  have hset := set_same hself
  let z : Member := ⟨Logger.initial (w.members.length + 1) (w.modeOf d) o.meaningful, d⟩
  calc
    (w.add o d).1.stripped w.members.length =
        ((w.add o d).1.setMember w.members.length
          ⟨Logger.initial (w.members.length + 1) (w.modeOf d) o, d⟩).stripped w.members.length :=
      congrArg (fun members => stripped _ { (w.add o d).1 with members }) hset
    _ = (w.add o d).1.setMember w.members.length z := setMember_stripped _ _
    _ = (w.add o.meaningful d).1 := by simp [setMember, add, z]

theorem addWith_stripped {r r' : Render Options} {d : Destination}
    (h : Fails r ∨ r' = Options.meaningful <$> r) (hm : (w.addWith r d).2 = .ok m) :
    w.addWith r' d = ((w.addWith r d).1.stripped m, .ok m) := by
  rcases h with hfails | rfl
  · obtain ⟨looks, f, hfailed⟩ := addWith_fails hfails w d
    rw [hfailed] at hm
    cases hm
  · unfold addWith render at hm ⊢
    rw [Render.map_run]
    rcases hr : r.run.run 0 with ⟨_ | o, looks⟩
    · rw [hr] at hm
      cases hm
    · rw [hr] at hm
      obtain rfl : w.members.length = m := Except.ok.inj hm
      exact congrArg (·, Except.ok w.members.length)
        (add_stripped { w with looks := w.looks + looks } o d).symm

theorem options_remainder (host : Host) (integer : v.int? = some i) (a : Wanted) :
    Fails ({ a with flags := v }.options host) ∨
      { a with flags := .int (i % Flags.bound) }.options host =
        Options.meaningful <$> { a with flags := v }.options host := by
  rcases Flags.ofValue_integer host.made integer with haccepted | ⟨hthrown, -⟩
  · refine .inr ?_
    simp only [Wanted.options, haccepted, Flags.ofValue_remainder, pure_bind, map_bind, map_pure]
    rfl
  · refine .inl (ensures_bind _ fun p => ?_)
    dsimp only
    rw [hthrown]
    exact Fails.bind (ensures_throw _ _) _

theorem syslogOptions_remainder (host : Host) (integer : v.int? = some i) (a : Wanted) :
    Fails (syslogOptions host { a with flags := v }) ∨
      syslogOptions host { a with flags := .int (i % Flags.bound) } =
        Options.meaningful <$> syslogOptions host { a with flags := v } := by
  let g := (Flags.ofInt i).union (.single .syslog)
  have hsyslog : (Flags.single .syslog).meaningful = .single .syslog := rfl
  have hmeaningful : (Flags.ofInt i).meaningful.union (.single .syslog) = g.meaningful := by
    rw [Flags.union_meaningful, hsyslog]
  have hremainder : syslogFlags host (.int (i % Flags.bound)) = pure g.meaningful := by
    rw [syslogFlags, Flags.ofValue_remainder, pure_bind, hmeaningful]
    exact if_pos (Flags.meaningful_known g).nameable
  have hvalue : syslogFlags host v = pure g ∨ Fails (syslogFlags host v) := by
    unfold syslogFlags
    rcases Flags.ofValue_integer host.made integer with haccepted | ⟨hthrown, -⟩
    · rw [haccepted, pure_bind]
      dsimp only
      split
      · exact .inl rfl
      · exact .inr (ensures_throw _ _)
    · rw [hthrown]
      exact .inr (Fails.bind (ensures_throw _ _) _)
  rcases hvalue with hg | hfails
  · refine .inr ?_
    simp only [syslogOptions, hg, hremainder, pure_bind, map_bind, map_pure]
    rfl
  · exact .inl (hfails.bind _)

theorem onOutlet_remainder (integer : v.int? = some i) (name : String)
    (hm : (w.onOutlet name { a with flags := v }).2 = .ok m) :
    w.onOutlet name { a with flags := .int (i % Flags.bound) } =
      ((w.onOutlet name { a with flags := v }).1.stripped m, .ok m) := by
  rcases onOutlet_cases w name { a with flags := v } with
    ⟨o, u, k, ho, hwritable, hadd, hmade⟩ | ⟨looks, f, hfailed⟩
  · rw [hmade] at hm ⊢
    obtain rfl : k = m := Except.ok.inj hm
    have hstripped := addWith_stripped (options_remainder w.host integer a)
      (congrArg Prod.snd hadd : _ = Except.ok k)
    rw [hadd] at hstripped
    exact onOutlet_of_made ho hwritable hstripped
  · rw [hfailed] at hm
    cases hm

theorem onFile_remainder (integer : v.int? = some i) (path : Value)
    (hm : (w.onFile path { a with flags := v }).2 = .ok m) :
    w.onFile path { a with flags := .int (i % Flags.bound) } =
      ((w.onFile path { a with flags := v }).1.stripped m, .ok m) := by
  revert hm
  rw [onFile, onFile]
  rcases w.openFile path with ⟨u, _ | writer⟩
  · rintro ⟨⟩
  · exact addWith_stripped (options_remainder _ integer a)

theorem onSyslog_remainder (integer : v.int? = some i) (address ident : Value)
    (hm : (w.onSyslog address ident { a with flags := v }).2 = .ok m) :
    w.onSyslog address ident { a with flags := .int (i % Flags.bound) } =
      ((w.onSyslog address ident { a with flags := v }).1.stripped m, .ok m) := by
  revert hm
  rw [onSyslog, onSyslog]
  rcases w.render (SyslogWriter.connect w.network w.program w.process address ident) with
    ⟨u, _ | ⟨network, _ | writer⟩⟩
  · rintro ⟨⟩
  · rintro ⟨⟩
  · exact addWith_stripped (syslogOptions_remainder _ integer a)

/-- A logger that is made with an integer is made with its remainder, and is no other. -/
theorem construct_remainder (integer : v.int? = some i) {source : Source}
    (valued : ∀ given, source ≠ .settings given)
    (hm : (w.construct source { a with flags := v }).2 = .ok m) :
    w.construct source { a with flags := .int (i % Flags.bound) } =
      ((w.construct source { a with flags := v }).1.stripped m, .ok m) := by
  cases source with
  | outlet o => exact onOutlet_remainder integer o.name hm
  | file path => exact onFile_remainder integer path hm
  | syslog address ident => exact onSyslog_remainder integer address ident hm
  | named name =>
    have hfile :=
      onFile_remainder (w := w) (m := m) (a := { a with linePrefix := .text "" }) integer
    revert hm
    rw [construct, construct]
    cases htext : name.text? with
    | some s =>
      rw [onNamed_text htext, onNamed_text htext]
      split
      · exact onSyslog_remainder integer _ _
      · exact hfile name
    | none =>
      by_cases hbytes : ∃ bs, name = .bytes bs
      · obtain ⟨bs, rfl⟩ := hbytes
        exact hfile _
      · rw [onNamed_nameless htext (not_exists.mp hbytes)]
        rintro ⟨⟩
  | settings given => exact absurd rfl (valued given)

end

end World

namespace Program

open World

def AssignsFlags (m : Nat) (w : World) (e : Event) : Prop :=
  match part? w e, w.members[m]? with
  | some (k, le), some x => k = m ∧ Logger.AssignsFlags x.state le
  | _, _ => False

instance (m : Nat) (w : World) (e : Event) : Decidable (AssignsFlags m w e) := by
  unfold AssignsFlags
  split <;> infer_instance

def Unassigned (m : Nat) (w : World) (es : List Event) : Prop :=
  ∀ before e after, es = before ++ e :: after → ¬AssignsFlags m (machine.after w before) e

def Aside (m : Nat) (t : Thread) : Event → Prop
  | .start k q _ => k = m → q ≠ t
  | .caller k q => k = m → q ≠ t
  | .collect k q => k = m → q ≠ t
  | _ => True

instance (m : Nat) (t : Thread) (e : Event) : Decidable (Aside m t e) :=
  match e with
  | .start k q _ | .caller k q | .collect k q =>
    (instDecidableForall : Decidable (k = m → q ≠ t))
  | .make .. | .setClock _ | .permit .. | .disturb _ | .note _ | .remark .. | .worker _
  | .ownCall .. => instDecidableTrue

/-- How a logger gets header options by a value, among them those that are added where it writes to.
What happens is told for any value in the place of this one. -/
inductive Gives (w : World) (m : Nat) (v : Value) : Flags → (Value → List Event) → Prop where
  | made {source : Source} {a r : Wanted} {route : Route}
      (valued : ∀ given, source ≠ .settings given)
      (reads : Route.Reads w.environment source { a with flags := v } route r)
      (granted : (w.construct source { a with flags := v }).2 = .ok m) :
      Gives w m v route.added fun v => [.make source { a with flags := v }]
  /-- A thread assigns them. Others may go on until it does. -/
  | assigned {t : Thread} (stack : Stack) (streams : List Stream) (host : Host)
      {meanwhile : List Event}
      (there : m < w.members.length) (accepted : (Call.setFlags v).AssignsFlags host.made)
      (aside : ∀ e ∈ meanwhile, Aside m t e) :
      Gives w m v .empty fun v =>
        .start m t ⟨.setFlags v, stack, streams, host⟩ :: meanwhile ++ [.caller m t]
  | assignedWithin (stack : Stack) (streams : List Stream) (host : Host)
      (there : m < w.members.length) (accepted : (Call.setFlags v).AssignsFlags host.made) :
      Gives w m v .empty fun v => [.ownCall m ⟨.setFlags v, stack, streams, host⟩]

def Has (w : World) (m : Nat) (f : Flags) : Prop :=
  ∃ x, w.members[m]? = some x ∧ x.state.options.flags = f

structure SameWritten (w v : World) : Prop where
  lines : ∀ k : Nat, (v.members[k]?).map (·.state.attempts) = (w.members[k]?).map (·.state.attempts)
  outlets : v.outlets = w.outlets
  files : v.files = w.files
  network : v.network = w.network
  notices : v.notices = w.notices

/-- Two runs that differ in bits without a meaning of the header options that a logger has. -/
structure Indistinct (w : World) (m : Nat) (es es' : List Event) : Prop where
  valid : machine.Valid w es' ↔ machine.Valid w es
  same : machine.after w es' = (machine.after w es).stripped m
  replies : machine.history replies w es' = machine.history replies w es

section

variable {w : World} {m : Nat} {t : Thread} {i : Int} {v : Value} {added f : Flags} {x : Member}
  {script : Value → List Event} {es es' rest : List Event}

theorem Aside.not_caller {e : Event} (h : Aside m t e) {le : Logger.Event}
    (hp : part? w e = some (m, le)) : le.caller? ≠ some t := by
  cases e with
  | start | caller | collect =>
    cases hp
    rintro ⟨⟩
    exact h rfl rfl
  | worker | ownCall =>
    cases hp
    rintro ⟨⟩
  | make | setClock | permit | disturb | note | remark => cases hp

theorem unassigned_cons {e : Event} :
    Unassigned m w (e :: es) ↔ ¬AssignsFlags m w e ∧ Unassigned m (next w e) es := by
  constructor
  · intro h
    refine ⟨h [] e es rfl, fun before e' after hes => h (e :: before) e' after ?_⟩
    rw [hes, List.cons_append]
  · rintro ⟨hnow, hlater⟩ before e' after hes
    cases before with
    | nil =>
      obtain ⟨rfl, -⟩ := List.cons.inj hes
      exact hnow
    | cons e'' before =>
      obtain ⟨rfl, rfl⟩ := List.cons.inj hes
      exact hlater before e' after rfl

instance (m : Nat) (w : World) (es : List Event) : Decidable (Unassigned m w es) := by
  induction es generalizing w with
  | nil => exact isTrue fun before e after hes => absurd hes (by simp)
  | cons e es ih => exact decidable_of_iff' _ unassigned_cons

theorem run_stripped (hs : w.shape.Sound) (there : m < w.members.length)
    (unassigned : Unassigned m w es) :
    (machine.Valid (w.stripped m) es ↔ machine.Valid w es) ∧
      machine.after (w.stripped m) es = (machine.after w es).stripped m ∧
      machine.history replies (w.stripped m) es = machine.history replies w es := by
  have hoverlooked : ∀ before e after, es = before ++ e :: after →
      Overlooked (.only m _ Logger.meaningful_number Logger.meaningful_worker)
        (machine.after w before) e := by
    intro before e after hes
    refine only_overlooked fun le x hp hx => Logger.unseen_meaningful _ _ fun hassigns => ?_
    refine unassigned before e after hes ?_
    rw [AssignsFlags, hp, hx]
    exact ⟨rfl, hassigns⟩
  exact run_overlooked hs (only_new there) hoverlooked

/-- Others go on alike, whatever a thread is about to do. -/
theorem run_apart (hs : w.shape.Sound) (there : m < w.members.length)
    (aside : ∀ e ∈ es, Aside m t e) (p : Progress) :
    let c := Change.only m (fun s => s.set t p) (fun _ => rfl) fun _ => rfl
    (machine.Valid (w.changed c) es ↔ machine.Valid w es) ∧
      machine.after (w.changed c) es = (machine.after w es).changed c ∧
      machine.history replies (w.changed c) es = machine.history replies w es := by
  intro c
  have hoverlooked : ∀ before e after, es = before ++ e :: after →
      Overlooked c (machine.after w before) e := by
    rintro before e after rfl
    refine only_overlooked fun le x hp hx => Logger.unseen_set _ _ p ?_
    exact (aside e (by simp)).not_caller hp
  exact run_overlooked hs (only_new there) hoverlooked

theorem run_length (hs : w.shape.Sound) (es : List Event) :
    w.members.length ≤ (machine.after w es).members.length := by
  induction es generalizing w with
  | nil => exact Nat.le_refl _
  | cons e es ih => exact Nat.le_trans (next_length hs e) (ih (next_sound hs e))

theorem Indistinct.append (h : Indistinct w m es es') (hs : w.shape.Sound)
    (there : m < (machine.after w es).members.length)
    (unassigned : Unassigned m (machine.after w es) rest) :
    Indistinct w m (es ++ rest) (es' ++ rest) := by
  obtain ⟨hvalid, hafter, hreplies⟩ := run_stripped (run_sound hs es) there unassigned
  rw [← h.same] at hvalid hafter hreplies
  refine ⟨?_, ?_, ?_⟩
  · rw [machine.valid_append, machine.valid_append, h.valid, hvalid]
  · rw [machine.after_append, machine.after_append, hafter]
  · rw [machine.history_append, machine.history_append, h.replies, hreplies]

theorem Has.stripped (h : Has w m f) : Has (w.stripped m) m f.meaningful := by
  obtain ⟨x, hx, rfl⟩ := h
  exact ⟨_, only_self hx, rfl⟩

theorem Has.there (h : Has w m f) : m < w.members.length := by
  obtain ⟨x, hx, -⟩ := h
  exact (List.getElem?_eq_some_iff.mp hx).1

theorem made_indistinct (alone : w.target = none) (integer : v.int? = some i) {source : Source}
    {a r : Wanted} {route : Route} (valued : ∀ given, source ≠ .settings given)
    (reads : Route.Reads w.environment source { a with flags := v } route r)
    (granted : (w.construct source { a with flags := v }).2 = .ok m) :
    let made (v : Value) : Event := .make source { a with flags := v }
    Indistinct w m [made v] [made (.int (i % Flags.bound))] ∧
      Has (next w (made v)) m ((Flags.ofInt i).union route.added) := by
  intro made
  have hmade := construct_remainder integer valued granted
  refine ⟨⟨Iff.rfl, congrArg Prod.fst hmade, ?_⟩, ?_⟩
  · have hresult : (w.construct source { a with flags := .int (i % Flags.bound) }).2 =
        (w.construct source { a with flags := v }).2 := by
      rw [hmade, granted]
    exact congrArg (fun result => [Reply.made result] ++ []) hresult
  · have hasked : r.flags = v := by
      cases reads with
      | settings => exact absurd rfl (valued _)
      | _ => rfl
    obtain ⟨u, -, hroute⟩ := construct_routed alone reads
    rw [hroute] at granted
    obtain ⟨hnumber, o, d, hgranted, hmembers⟩ := (onRoute_concluded u r route).of_ok granted
    obtain ⟨f, hstands, hflags⟩ := hgranted.flags
    rw [hasked] at hstands
    obtain rfl : f = Flags.ofInt i := hstands.unique (Flags.ofInt_stands integer)
    let mode := (u.onRoute r route).1.modeOf d
    have hlast : (u.onRoute r route).1.members[m]? = some ⟨Logger.initial (m + 1) mode o, d⟩ := by
      rw [hmembers, hnumber]
      exact List.getElem?_concat_length
    refine ⟨⟨Logger.initial (m + 1) mode o, d⟩, ?_, hflags⟩
    rw [next, hroute]
    exact hlast

theorem started_only (hx : w.members[m]? = some x) (t : Thread) (i : Invocation) :
    next w (.start m t i) =
      w.changed (.only m (fun s => s.set t (Logger.begin i)) (fun _ => rfl) fun _ => rfl) := by
  have hset : w.setMember m x = w := congrArg (fun members => { w with members }) (set_same hx).symm
  have hchanged : (w.setMember m x).changed
      (.only m (fun s => s.set t (Logger.begin i)) (fun _ => rfl) fun _ => rfl) =
        w.setMember m (x.changed fun s => s.set t (Logger.begin i)) := setMember_only w x
  rw [hset] at hchanged
  rw [hchanged, next, event, hx]
  rfl

/-- An assignment that a thread is about to make goes through, and is all that comes of its call. -/
theorem assign_turn (hx : w.members[m]? = some x) (t : Thread) (stack : Stack)
    (streams : List Stream) (host : Host) (h : Flags.ofValue host.made v = pure f) :
    let c := Change.only m (fun s => s.set t (.composing ⟨.setFlags v, stack, streams, host⟩))
      (fun _ => rfl) fun _ => rfl
    Enabled (w.changed c) (.caller m t) ∧
      next (w.changed c) (.caller m t) = w.setMember m { x with
        state := (x.state.assigned f).set t (.handing [] (.value .none) 0) } := by
  intro c
  let composing : Progress := .composing ⟨.setFlags v, stack, streams, host⟩
  let z : Member := { x with
    state := (x.state.assigned f).set t (.handing [] (.value .none) 0) }
  have hself : (w.changed c).members[m]? = some { x with state := x.state.set t composing } :=
    only_self hx
  have hcaller : (x.state.set t composing).callers t = composing := update_same _ _ _
  have hstep : Logger.next (w.changed c).clock (x.state.set t composing) (.caller t) = z.state := by
    rw [Logger.next, hcaller, Logger.callerStep, Logger.compose_assigned h]
    exact Logger.set_set (x.state.assigned f) t composing _
  have hevent : (w.changed c).event m (.caller t) = w.setMember m z := by
    rw [event, hself]
    dsimp only
    rw [hstep]
    exact only_setMember w z
  have hbefore : (w.changed c).looksOf m t = 0 := by
    rw [looksOf, hself]
    dsimp only
    rw [hcaller]
  have hafter : (w.setMember m z).looksOf m t = 0 := by
    have hdone : z.state.callers t = .handing [] (.value .none) 0 := update_same _ _ _
    rw [looksOf, setMember_self hx]
    dsimp only
    rw [hdone]
  constructor
  · have hready : Logger.Enabled (x.state.set t composing) (.caller t) := by
      rw [Logger.Enabled, hcaller]
      trivial
    rw [Enabled, callerReady, hself]
    exact decide_eq_true hready
  · rw [next, callerTurn, hevent, hbefore, hafter]
    rfl

theorem assigned_run (hs : w.shape.Sound) (there : m < w.members.length)
    (aside : ∀ e ∈ es, Aside m t e) (stack : Stack) (streams : List Stream) (host : Host)
    (h : Flags.ofValue host.made v = pure f) (hy : (machine.after w es).members[m]? = some x) :
    let assigns := .start m t ⟨.setFlags v, stack, streams, host⟩ :: es ++ [.caller m t]
    (machine.Valid w assigns ↔ w.takes m (.start t ⟨.sync, stack, streams, host⟩) = true ∧
        machine.Valid w es) ∧
      machine.after w assigns = (machine.after w es).setMember m { x with
        state := (x.state.assigned f).set t (.handing [] (.value .none) 0) } ∧
      machine.history replies w assigns = machine.history replies w es := by
  intro assigns
  obtain ⟨y, hx⟩ : ∃ y, w.members[m]? = some y := ⟨_, List.getElem?_eq_getElem there⟩
  have hstart : machine.next w (.start m t ⟨.setFlags v, stack, streams, host⟩) = _ :=
    started_only hx t ⟨.setFlags v, stack, streams, host⟩
  obtain ⟨hvalid, hafter, hreplies⟩ :=
    run_apart hs there aside (Logger.begin ⟨.setFlags v, stack, streams, host⟩)
  obtain ⟨hready, hturn⟩ := assign_turn hy t stack streams host h
  have hassigns :
    assigns = .start m t ⟨.setFlags v, stack, streams, host⟩ :: (es ++ [.caller m t]) := rfl
  rw [hassigns]
  refine ⟨?_, ?_, ?_⟩
  · rw [Machine.Valid, machine.valid_append, hstart, hvalid, hafter]
    exact and_congr Iff.rfl (and_iff_left ⟨hready, trivial⟩)
  · rw [Machine.after, machine.after_append, hstart, hafter]
    exact hturn
  · rw [Machine.history, machine.history_append, hstart, hreplies]
    exact List.append_nil _

theorem accepted_integer {host : Host} (integer : v.int? = some i)
    (accepted : (Call.setFlags v).AssignsFlags host.made) :
    Flags.ofValue host.made v = pure (.ofInt i) := by
  rcases Flags.ofValue_integer host.made integer with haccepted | ⟨hthrown, -⟩
  · exact haccepted
  · rw [Call.AssignsFlags, hthrown] at accepted
    cases accepted

theorem assigned_indistinct {host : Host} (hs : w.shape.Sound) (there : m < w.members.length)
    (integer : v.int? = some i) (accepted : (Call.setFlags v).AssignsFlags host.made)
    (aside : ∀ e ∈ es, Aside m t e) (stack : Stack) (streams : List Stream) :
    let assigns (v : Value) : List Event :=
      .start m t ⟨.setFlags v, stack, streams, host⟩ :: es ++ [.caller m t]
    Indistinct w m (assigns v) (assigns (.int (i % Flags.bound))) ∧
      Has (machine.after w (assigns v)) m (.ofInt i) := by
  intro assigns
  obtain ⟨x, hx⟩ : ∃ x, (machine.after w es).members[m]? = some x :=
    ⟨_, List.getElem?_eq_getElem (Nat.lt_of_lt_of_le there (run_length hs es))⟩
  obtain ⟨hvalid, hafter, hreplies⟩ :=
    assigned_run hs there aside stack streams host (accepted_integer integer accepted) hx
  obtain ⟨hvalid', hafter', hreplies'⟩ :=
    assigned_run hs there aside stack streams host (Flags.ofValue_remainder host.made i) hx
  refine ⟨⟨hvalid'.trans hvalid.symm, ?_, hreplies'.trans hreplies.symm⟩, ?_⟩
  · rw [hafter', hafter, setMember_stripped]
    rfl
  · rw [hafter]
    exact ⟨_, setMember_self hx, rfl⟩

theorem assignedWithin_indistinct {host : Host} (there : m < w.members.length)
    (integer : v.int? = some i) (accepted : (Call.setFlags v).AssignsFlags host.made)
    (stack : Stack) (streams : List Stream) :
    let assigns (v : Value) : Event := .ownCall m ⟨.setFlags v, stack, streams, host⟩
    Indistinct w m [assigns v] [assigns (.int (i % Flags.bound))] ∧
      Has (next w (assigns v)) m (.ofInt i) := by
  intro assigns
  obtain ⟨x, hx⟩ : ∃ x, w.members[m]? = some x := ⟨_, List.getElem?_eq_getElem there⟩
  have hcall : ∀ {v : Value} {f : Flags}, Flags.ofValue host.made v = pure f →
      w.ownCall m ⟨.setFlags v, stack, streams, host⟩ = (w.setMember m { x with
        state := { x.state.assigned f with
          ownOutcomes := x.state.ownOutcomes ++ [.returned .none] } },
        some (.returned .none)) := by
    intro v f h
    simp only [World.ownCall, event, hx, Logger.next, Logger.ownCall_assigned h]
    rfl
  have hvalue := hcall (accepted_integer integer accepted)
  have hremainder := hcall (Flags.ofValue_remainder host.made i)
  refine ⟨⟨Iff.rfl, ?_, ?_⟩, ?_⟩
  · have hnext : next w (assigns (.int (i % Flags.bound))) = (next w (assigns v)).stripped m := by
      rw [next, next, hremainder, hvalue, setMember_stripped]
      rfl
    exact hnext
  · have hreply : replies w (assigns (.int (i % Flags.bound))) = replies w (assigns v) := by
      rw [replies, replies, hremainder, hvalue]
    exact congrArg (· ++ []) hreply
  · rw [next, hvalue]
    exact ⟨_, setMember_self hx, rfl⟩

theorem gives_indistinct (hs : w.shape.Sound) (integer : v.int? = some i)
    (h : Gives w m v added script) :
    Indistinct w m (script v) (script (.int (i % Flags.bound))) ∧
      Has (machine.after w (script v)) m ((Flags.ofInt i).union added) := by
  cases h with
  | made valued reads granted => exact made_indistinct hs.alone integer valued reads granted
  | assigned stack streams host there accepted aside =>
    rw [Flags.union_empty]
    exact assigned_indistinct hs there integer accepted aside stack streams
  | assignedWithin stack streams host there accepted =>
    rw [Flags.union_empty]
    exact assignedWithin_indistinct there integer accepted stack streams

theorem stripped_written (m : Nat) (w : World) : SameWritten w (w.stripped m) := by
  refine ⟨fun k => ?_, rfl, rfl, rfl, rfl⟩
  by_cases hk : k = m
  · subst hk
    cases hx : w.members[k]? with
    | none =>
      rw [World.stripped, changed_member, hx]
      rfl
    | some x =>
      rw [World.stripped, only_self hx]
      rfl
  · rw [World.stripped, only_other w hk]

/-- What an integer is to header options, in comparison to its remainder. -/
structure OnlyMeaning (i : Int) (v : Value) : Prop where
  counts : Flags.Counts i (.ofInt i)
  /-- It may be too long to be named. -/
  read : ∀ made, Flags.ofValue made v = pure (.ofInt i) ∨
    (Flags.ofValue made v = throw .numberTooLong ∧ (Flags.ofInt i).nameable = false)
  remainder : ∀ made,
    Flags.ofValue made (.int (i % Flags.bound)) = pure (.ofInt (i % Flags.bound))
  lines : Line.Alike (.ofInt i) (.ofInt (i % Flags.bound))
  runs : ∀ world before, Fresh world → let w := machine.after world before
    ∀ m added script, Gives w m v added script →
      Has (machine.after w (script v)) m ((Flags.ofInt i).union added) ∧
        Has (machine.after w (script (.int (i % Flags.bound)))) m
          ((Flags.ofInt (i % Flags.bound)).union added) ∧
        ∀ rest, Unassigned m (machine.after w (script v)) rest →
          Indistinct w m (script v ++ rest) (script (.int (i % Flags.bound)) ++ rest) ∧
            SameWritten (machine.after w (script v ++ rest))
              (machine.after w (script (.int (i % Flags.bound)) ++ rest))

/-- Settings hold no bit without a meaning; of other integers nothing else matters. -/
theorem only_meaning_matters :
    (∀ lib s r, (Settings.load lib s).outcome = .ok r →
        r.flags = .ofInt (r.flags.bits % Flags.bound)) ∧
      ∀ (i : Int) (v : Value), v.int? = some i → OnlyMeaning i v := by
  constructor
  · intro lib s r hloaded
    have hknown : r.flags.Known := Settings.load_known lib s 0 r hloaded
    rw [Flags.ofInt_remainder]
    exact hknown.meaningful.symm
  · intro i v integer
    refine ⟨Flags.ofInt_counts i, fun made => Flags.ofValue_integer made integer, ?_, ?_, ?_⟩
    · rw [Flags.ofInt_remainder]
      exact fun made => Flags.ofValue_remainder made i
    · rw [Flags.ofInt_remainder]
      exact Line.alike_meaningful _
    · intro world before fresh w m added script gives
      have hs : w.shape.Sound := run_sound fresh.sound before
      obtain ⟨hindistinct, hhas⟩ := gives_indistinct hs integer gives
      refine ⟨hhas, ?_, fun rest unassigned => ?_⟩
      · have hadded : added.meaningful = added := by
          cases gives with
          | @made _ _ _ route => cases route <;> rfl
          | assigned | assignedWithin => rfl
        have hstripped := hhas.stripped
        rw [Flags.union_meaningful, hadded, ← Flags.ofInt_remainder, ← hindistinct.same]
          at hstripped
        exact hstripped
      · have hrest := hindistinct.append hs hhas.there unassigned
        rw [hrest.same]
        exact ⟨hrest, stripped_written m _⟩

end

def madeWith (v : Value) : Event :=
  .make (.outlet (Outlet.plain "a" .text)) ⟨.priority .none, .text "", v⟩

def assignedWith (v : Value) : List Event :=
  let thread : Thread := .caller 0
  .start 0 thread ⟨.setFlags v, [], [], .usual⟩ :: List.replicate 3 (.worker 0) ++
    [.caller 0 thread]

def outcry : List Event :=
  let thread : Thread := .caller 1
  let stack : Stack := [⟨"/d/x", some 7, none, "f"⟩, ⟨"/d/y", some 9, none, "g"⟩]
  .start 0 thread ⟨.leveled .error (.text "a") [], stack, [], .usual⟩ ::
    List.replicate 7 (.caller 0 thread) ++ List.replicate 3 (.worker 0)

/-- The integer -173 is 83, of which 64 is no option. -/
theorem stray_bit_unseen :
    let v : Value := .int (-173)
    let made (v : Value) : List Event := [madeWith v] ++ (List.replicate 3 (.worker 0) ++ outcry)
    let w : World := machine.after World.bareProgram [madeWith (.flags .standard)]
    OnlyMeaning (-173) v ∧
      (machine.after World.bareProgram (made v)).members.map
          (fun x => (x.state.options.flags.bits, x.state.attempts)) =
        [(83, [Text.points "<4>:2024/05/06 07:08:09 (x:7) a\n".toList])] ∧
      Indistinct World.bareProgram 0 (made v) (made (.int 19)) ∧
      (machine.after w (assignedWith v ++ outcry)).members.map
          (fun x => (x.state.options.flags.bits, x.state.attempts)) =
        [(83, [Text.points "<4>:2024/05/06 07:08:09 (x:7) a\n".toList])] ∧
      Indistinct w 0 (assignedWith v ++ outcry) (assignedWith (.int 19) ++ outcry) := by
  intro v made w
  have hmeaning : OnlyMeaning (-173) v := only_meaning_matters.2 (-173) v rfl
  have hmade : Gives World.bareProgram 0 v .empty fun v => [madeWith v] :=
    .made (a := ⟨.priority .none, .text "", v⟩) (fun _ => Source.noConfusion) (.outlet _ _)
      (made_of_option (by decide +kernel))
  have hassigned : Gives w 0 v .empty assignedWith :=
    .assigned [] [] .usual (by decide +kernel) (by decide +kernel) (by decide +kernel)
  obtain ⟨-, -, hrun⟩ := hmeaning.runs World.bareProgram [] ⟨rfl, rfl⟩ 0 _ _ hmade
  obtain ⟨-, -, hrun'⟩ := hmeaning.runs World.bareProgram [madeWith (.flags .standard)] ⟨rfl, rfl⟩
    0 _ _ hassigned
  exact ⟨hmeaning, by decide +kernel, (hrun _ (by decide +kernel)).1, by decide +kernel,
    (hrun' _ (by decide +kernel)).1⟩

end Program

end LeveledLog
