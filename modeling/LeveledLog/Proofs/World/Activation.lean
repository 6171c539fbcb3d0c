import LeveledLog.Proofs.World.Opening

/-!
A logger is made whole or not at all. A failure starts no worker, takes no number, writes nothing
and changes no logger; a success starts one worker, with the options that were asked for. A failure
may have opened a file or tried a connection, which writes nothing to either.
-/

namespace LeveledLog

def Network.records (n : Network) : List (List UInt8) :=
  n.events.filterMap fun
    | .send record => some record
    | .sendAll record => some record
    | _ => none

section

open Render

variable {n : Network}

theorem Network.record_records {e : NetworkEvent}
    (h : ∀ record, e ≠ .send record ∧ e ≠ .sendAll record) :
    (n.record e).records = n.records := by
  unfold records record
  rw [List.filterMap_append]
  cases e with
  | connect | close => simp
  | send record => exact absurd rfl (h record).1
  | sendAll record => exact absurd rfl (h record).2

theorem Network.close_records (n : Network) (id : Nat) : (n.close id).records = n.records :=
  record_records (by simp)

theorem Network.attempt_records (n : Network) (kind : SocketKind) (address : Value) :
    Ensures (fun p => p.1.records = n.records) (n.attempt kind address) := by
  have hadded : (n.added ⟨kind, true⟩).records = n.records := rfl
  unfold attempt
  split
  · exact ensures_pure rfl
  · refine ensures_bind _ fun text => ?_
    cases text with
    | error f =>
      dsimp only
      split <;> refine ensures_pure ?_
      · exact (Network.close_records _ _).trans hadded
      · exact hadded
    | ok text =>
      have hconnect : ((n.added ⟨kind, true⟩).record (.connect kind (String.ofList text))).records =
          n.records := (Network.record_records (by simp)).trans hadded
      dsimp only
      split
      · exact ensures_pure hconnect
      · split <;> refine ensures_pure ?_
        · exact (Network.close_records _ _).trans hconnect
        · exact hconnect

theorem Network.connect_records (n : Network) (address : Value) :
    Ensures (fun p => p.1.records = n.records) (n.connect address) := by
  refine (n.attempt_records .datagram address).bind ?_
  rintro ⟨u, result⟩ hu
  cases result with
  | ok id => exact ensures_pure hu
  | error f =>
    dsimp only
    split
    · rw [← hu]
      exact u.attempt_records .stream address
    · exact ensures_pure hu

theorem SyslogWriter.connect_records (n : Network) (program : List String) (process : Nat)
    (address ident : Value) :
    Ensures (fun p => p.1.records = n.records) (connect n program process address ident) := by
  unfold connect
  dsimp only
  split
  · exact ensures_bind _ fun f => ensures_pure rfl
  · refine (n.connect_records address).bind ?_
    rintro ⟨u, result⟩ hu
    cases result with
    | ok socket => exact ensures_pure hu
    | error f =>
      dsimp only
      split
      · exact ensures_bind _ fun f => ensures_pure hu
      · exact ensures_pure hu

end

namespace World

open Files Route

/-- Nothing is left of an attempt: no worker, no number, no record, and no byte in a file. -/
structure Untouched (w u : World) : Prop where
  members : u.members = w.members
  outlets : ∀ name o, w.outlet? name = some o → u.outlet? name = some o
  records : u.network.records = w.network.records
  /-- A file may have been opened. -/
  files : ∀ p, u.files.file? p = w.files.file? p ∨ ∃ mode, u.files.file? p = some ⟨[], mode⟩

/-- One more logger is there, with a worker that has just started, and with the next number. -/
structure Activated (w u : World) (route : Route) (a : Wanted) (m : Nat) : Prop where
  next : m = w.members.length
  started : ∃ o d, Granted a route.added o ∧
    u.members = w.members ++ [⟨Logger.initial (m + 1) (u.modeOf d) o, d⟩]

inductive Concluded (w : World) (route : Route) (a : Wanted) : World × Except Fault Nat → Prop where
  | refused {u : World} (f : Fault) (untouched : Untouched w u) : Concluded w route a (u, .error f)
  | made {u : World} {m : Nat} (activated : Activated w u route a m) :
      Concluded w route a (u, .ok m)

structure AllOrNothing (w : World) (source : Source) (a : Wanted) : Prop where
  refused : ∀ f, (w.construct source a).2 = .error f → Untouched w (w.construct source a).1
  made : ∀ m, (w.construct source a).2 = .ok m →
    ∃ route r, Reads w.environment source a route r ∧
      Activated w (w.construct source a).1 route r m

section

variable {w v u : World} {source : Source} {a r : Wanted} {route : Route}
  {result : World × Except Fault Nat}

theorem Prepared.untouched (h : Prepared w v) : Untouched w v := by
  refine ⟨h.members, h.outlets, ?_, ?_⟩
  · rw [h.network]
  · intro p
    rw [h.files]
    exact .inl rfl

theorem untouched_looks (w : World) (looks : Nat) : Untouched w { w with looks } :=
  ⟨rfl, fun _ _ ho => ho, rfl, fun _ => .inl rfl⟩

theorem Untouched.trans (h : Untouched w v) (k : Untouched v u) : Untouched w u := by
  refine ⟨k.members.trans h.members, ?_, k.records.trans h.records, ?_⟩
  · intro name o ho
    exact k.outlets name o (h.outlets name o ho)
  · intro p
    rcases k.files p with hsame | hempty
    · rw [hsame]
      exact h.files p
    · exact .inr hempty

theorem Concluded.after (h : Untouched w v) (k : Concluded v route a result) :
    Concluded w route a result := by
  cases k with
  | refused f untouched => exact .refused f (h.trans untouched)
  | made activated =>
    obtain ⟨hnext, o, d, hgranted, hmembers⟩ := activated
    rw [h.members] at hnext hmembers
    exact .made ⟨hnext, o, d, hgranted, hmembers⟩

theorem Concluded.of_error (h : Concluded w route a result) {f : Fault}
    (hf : result.2 = .error f) : Untouched w result.1 := by
  cases h with
  | refused f untouched => exact untouched
  | made activated => cases hf

theorem Concluded.of_ok (h : Concluded w route a result) {m : Nat} (hm : result.2 = .ok m) :
    Activated w result.1 route a m := by
  cases h with
  | refused f untouched => cases hm
  | made activated =>
    cases hm
    exact activated

/-- What is left to do on any route: to look at the options. -/
theorem addWith_concluded {options : Render Options}
    (h : (∃ o, options = pure o ∧ Granted a route.added o) ∨ Render.Fails options) (w : World)
    (d : Destination) : Concluded w route a (w.addWith options d) := by
  rcases h with ⟨o, rfl, hgranted⟩ | hfails
  · rw [addWith_pure]
    exact .made ⟨rfl, o, d, hgranted, rfl⟩
  · obtain ⟨looks, f, hfailed⟩ := addWith_fails hfails w d
    rw [hfailed]
    exact .refused f (untouched_looks w looks)

theorem options_granted (h : Host) (a : Wanted) :
    (∃ o, a.options h = pure o ∧ Granted a .empty o) ∨ Render.Fails (a.options h) := by
  rcases a.options_cases h with ⟨o, ho, hgranted, -⟩ | ⟨hfails, -⟩
  · exact .inl ⟨o, ho, hgranted⟩
  · exact .inr hfails

theorem setOutlet_modeOf {o p : Outlet} {name : String} (ho : w.outlet? name = some o)
    (hname : p.name = name) (hmode : p.mode = o.mode) (d : Destination) :
    (w.setOutlet p).modeOf d = w.modeOf d := by
  cases d with
  | outlet other =>
    rw [modeOf, modeOf, outlet?_setOutlet, hname]
    by_cases hother : name = other
    · rw [if_pos hother, ← hother, ho, Option.map_some, Option.map_some, Option.map_some, hmode]
    · rw [if_neg hother]
  | file | syslog => rfl

theorem onOutlet_concluded (w : World) (name : String) (a : Wanted) :
    Concluded w (.outlet name) a (w.onOutlet name a) := by
  rcases onOutlet_cases w name a with ⟨o, v, m, ho, -, hadd, hmade⟩ | ⟨looks, f, hfailed⟩
  · have hadded : Concluded w (.outlet name) a (w.addWith (a.options w.host) (.outlet name)) :=
      addWith_concluded (options_granted w.host a) w (.outlet name)
    obtain ⟨looks, members, hframe⟩ := addWith_frame w (a.options w.host) (.outlet name)
    rw [hadd] at hadded hframe
    rw [hmade]
    cases hadded with
    | made activated =>
      obtain ⟨hnext, opts, d, hgranted, hmembers⟩ := activated
      have hknown : v.outlet? name = some o := by
        obtain rfl : v = { w with looks, members } := hframe
        exact ho
      have hname : o.name = name := outlet?_name ho
      have hmode : (v.setOutlet { o with latest := some m }).modeOf d = v.modeOf d := by
        apply setOutlet_modeOf hknown
        · exact hname
        · rfl
      refine .made ⟨hnext, opts, d, hgranted, ?_⟩
      rw [hmode]
      exact hmembers
  · rw [hfailed]
    exact .refused f (untouched_looks w looks)

theorem onFile_concluded (w : World) (path : Value) (a : Wanted) :
    Concluded w (.file path) a (w.onFile path a) := by
  rcases onFile_cases w path a with ⟨p, files, -, herased, hmade⟩ | ⟨-, looks, f, hfailed⟩
  · rw [hmade]
    refine .after ?_ (addWith_concluded (options_granted w.host a) { w with files } _)
    refine ⟨rfl, fun _ _ ho => ho, rfl, ?_⟩
    intro q
    by_cases hq : q = p
    · subst hq
      exact .inr ⟨_, herased.target⟩
    · exact .inl (herased.others q hq)
  · rw [hfailed]
    exact .refused f (untouched_looks w looks)

theorem onSyslog_concluded (w : World) (address ident : Value) (a : Wanted) :
    Concluded w (.syslog address ident) a (w.onSyslog address ident a) := by
  have hrecords := SyslogWriter.connect_records w.network w.program w.process address ident
  have hreached : ∀ {looks : Nat} {network : Network}, network.records = w.network.records →
      Untouched w { w with looks, network } :=
    fun hsame => ⟨rfl, fun _ _ ho => ho, hsame, fun _ => .inl rfl⟩
  rw [onSyslog_eq]
  dsimp only
  split
  · exact .refused _ (untouched_looks w _)
  · rename_i network f hconnect
    exact .refused f (hreached (hrecords 0 _ hconnect))
  · rename_i network s hconnect
    exact .after (hreached (hrecords 0 _ hconnect))
      (addWith_concluded (syslogOptions_cases w.host a) _ _)

theorem onRoute_concluded (w : World) (a : Wanted) (route : Route) :
    Concluded w route a (w.onRoute a route) := by
  cases route with
  | outlet name => exact onOutlet_concluded w name a
  | file path => exact onFile_concluded w path a
  | syslog address ident => exact onSyslog_concluded w address ident a

/-- A logger is made whole, as it was asked for, or nothing has happened. -/
theorem construct_all_or_nothing (alone : w.target = none) (source : Source) (a : Wanted) :
    AllOrNothing w source a := by
  rcases construct_unrouted w source a with ⟨route, r, hreads⟩ | ⟨looks, f, hrefused⟩
  · obtain ⟨v, hprepared, hmade⟩ := construct_routed alone hreads
    have hconcluded := (onRoute_concluded v r route).after hprepared.untouched
    rw [← hmade] at hconcluded
    constructor
    · intro f hf
      exact hconcluded.of_error hf
    · intro m hm
      exact ⟨route, r, hreads, hconcluded.of_ok hm⟩
  · constructor
    · intro f' hf
      rw [hrefused]
      exact untouched_looks w looks
    · intro m hm
      rw [hrefused] at hm
      cases hm

end

end World

end LeveledLog
