import LeveledLog.Proofs.World.Coercion
import LeveledLog.Proofs.World.Constructions

/-!
Routes: where a logger is to write to. There are more ways to ask for a logger than routes, since a
name and settings only choose between the others. What is asked for without a route makes no logger,
and getting to a route changes nothing but outlets that become known, notices, and looks.
-/

namespace LeveledLog

inductive Route where
  | outlet (name : String)
  | file (path : Value)
  | syslog (address ident : Value)

namespace Route

def added : Route → Flags
  | .syslog _ _ => .single .syslog
  | _ => .empty

def IsSyslog (s : String) : Prop := String.ofList (Text.upper s.toList) = "SYSLOG"

instance (s : String) : Decidable (IsSyslog s) :=
  inferInstanceAs (Decidable (String.ofList (Text.upper s.toList) = "SYSLOG"))

inductive OfSettings (s : Settings) : Route → Prop where
  | standardError (nowhere : s.destination = none) : OfSettings s (.outlet World.standardError)
  | syslog {d : String} (somewhere : s.destination = some d) (word : IsSyslog d) :
      OfSettings s (.syslog (.text s.syslogAddress) (s.syslogIdent.elim .none .text))
  | file {d : String} (somewhere : s.destination = some d) (other : ¬IsSyslog d) :
      OfSettings s (.file (.text d))

inductive Reads (environment : List (String × String)) :
    Source → Wanted → Route → Wanted → Prop where
  | outlet (o : Outlet) (a : Wanted) : Reads environment (.outlet o) a (.outlet o.name) a
  | file (path : Value) (a : Wanted) : Reads environment (.file path) a (.file path) a
  | syslog (address ident : Value) (a : Wanted) :
      Reads environment (.syslog address ident) a (.syslog address ident) a
  | namedSyslog {name : Value} {s : String} (a : Wanted) (text : name.text? = some s)
      (word : IsSyslog s) :
      Reads environment (.named name) a (.syslog (.text Settings.defaultAddress) .none) a
  | namedFile {name : Value} {s : String} (a : Wanted) (text : name.text? = some s)
      (other : ¬IsSyslog s) :
      Reads environment (.named name) a (.file name) { a with linePrefix := .text "" }
  | namedBytes (bs : List UInt8) (a : Wanted) :
      Reads environment (.named (.bytes bs)) a (.file (.bytes bs)) { a with linePrefix := .text "" }
  | settings {given : List (String × Value)} {s : Settings} {route : Route} (a : Wanted)
      (loaded : (Settings.load .standard ⟨given, environment⟩).outcome = .ok s)
      (leads : OfSettings s route) :
      Reads environment (.settings given) a route (World.wantedOf s)

end Route

namespace World

open Route

def onRoute (w : World) (a : Wanted) : Route → World × Except Fault Nat
  | .outlet name => w.onOutlet name a
  | .file path => w.onFile path a
  | .syslog address ident => w.onSyslog address ident a

/-- No logger has changed, and nothing that one writes to. -/
structure Prepared (w v : World) : Prop where
  host : v.host = w.host
  members : v.members = w.members
  files : v.files = w.files
  network : v.network = w.network
  outlets : ∀ name o, w.outlet? name = some o → v.outlet? name = some o

section

variable {w v : World} {source : Source} {a r : Wanted} {route : Route}

theorem isSyslog_iff (s : String) : isSyslog s = true ↔ IsSyslog s := by
  rw [isSyslog, IsSyslog, beq_iff_eq]

theorem render_eq {α : Type} (w : World) (r : Render α) :
    ∃ looks, w.render r = ({ w with looks }, r.outcome) := ⟨_, rfl⟩

theorem addWith_pure (w : World) (o : Options) (d : Destination) :
    w.addWith (pure o) d = ((w.add o d).1, .ok w.members.length) := rfl

theorem addWith_fails {r : Render Options} (h : Render.Fails r) (w : World) (d : Destination) :
    ∃ looks f, w.addWith r d = ({ w with looks }, .error f) := by
  obtain ⟨looks, hrender⟩ := render_eq w r
  obtain ⟨f, hf⟩ := h.outcome
  refine ⟨looks, f, ?_⟩
  rw [addWith, hrender, hf]

theorem addWith_cases (w : World) (r : Render Options) (d : Destination) :
    (∃ looks o, w.addWith r d = ((add { w with looks } o d).1, .ok w.members.length)) ∨
      ∃ looks f, w.addWith r d = ({ w with looks }, .error f) := by
  obtain ⟨looks, hrender⟩ := render_eq w r
  rw [addWith, hrender]
  cases r.outcome with
  | error f => exact .inr ⟨looks, f, rfl⟩
  | ok o => exact .inl ⟨looks, o, rfl⟩

/-- Options are given to a logger that is added, if they are given, and nothing else is done. -/
theorem addWith_frame (w : World) (r : Render Options) (d : Destination) :
    ∃ looks members, (w.addWith r d).1 = { w with looks, members } := by
  rcases addWith_cases w r d with ⟨looks, o, h⟩ | ⟨looks, f, h⟩ <;> rw [h]
  · exact ⟨looks, _, rfl⟩
  · exact ⟨looks, w.members, rfl⟩

theorem onOutlet_of_made {name : String} {o : Outlet} {m : Nat} (ho : w.outlet? name = some o)
    (hwritable : o.writable = true) (h : w.addWith (a.options w.host) (.outlet name) = (v, .ok m)) :
    w.onOutlet name a = (v.setOutlet { o with latest := some m }, .ok m) := by
  rw [onOutlet, ho]
  dsimp only
  rw [hwritable, h]
  rfl

/-- An outlet gets to know of a logger that is made on it. If none is made, all is as it was. -/
theorem onOutlet_cases (w : World) (name : String) (a : Wanted) :
    (∃ o v m, w.outlet? name = some o ∧ o.writable = true ∧
      w.addWith (a.options w.host) (.outlet name) = (v, .ok m) ∧
      w.onOutlet name a = (v.setOutlet { o with latest := some m }, .ok m)) ∨
    ∃ looks f, w.onOutlet name a = ({ w with looks }, .error f) := by
  cases ho : w.outlet? name with
  | none =>
    refine .inr ⟨w.looks, .wrongType, ?_⟩
    rw [onOutlet, ho]
  | some o =>
    by_cases hwritable : o.writable = true
    · rcases addWith_cases w (a.options w.host) (.outlet name) with ⟨looks, opts, h⟩ | ⟨looks, f, h⟩
      · exact .inl ⟨o, _, _, rfl, hwritable, h, onOutlet_of_made ho hwritable h⟩
      · refine .inr ⟨looks, f, ?_⟩
        rw [onOutlet, ho]
        dsimp only
        rw [hwritable, h]
        rfl
    · refine .inr ⟨w.looks, .wrongType, ?_⟩
      rw [onOutlet, ho]
      dsimp only
      rw [if_pos (by simpa using hwritable)]

theorem prepared_provide (w : World) (o : Outlet) : Prepared w (w.provide o) := by
  refine ⟨?_, provide_members w o, ?_, ?_, ?_⟩
  · unfold provide
    split <;> rfl
  · unfold provide
    split <;> rfl
  · unfold provide
    split <;> rfl
  · intro name old hold
    rw [outlet?_provide, hold]
    rfl

theorem onSettings_leads {s : Settings} (h : OfSettings s route) (w : World) :
    w.onSettings s = w.onRoute (wantedOf s) route := by
  cases h with
  | standardError nowhere =>
    rw [onSettings, nowhere]
    rfl
  | syslog somewhere word =>
    rw [onSettings, somewhere]
    dsimp only
    rw [if_pos ((isSyslog_iff _).mpr word)]
    cases s.syslogIdent <;> rfl
  | file somewhere other =>
    rw [onSettings, somewhere]
    dsimp only
    rw [if_neg (mt (isSyslog_iff _).mp other)]
    rfl

theorem leads_somewhere (s : Settings) : ∃ route, OfSettings s route := by
  cases h : s.destination with
  | none => exact ⟨_, .standardError h⟩
  | some d =>
    by_cases hword : IsSyslog d
    · exact ⟨_, .syslog h hword⟩
    · exact ⟨_, .file h hword⟩

theorem onNamed_text {name : Value} {s : String} (htext : name.text? = some s) (w : World)
    (a : Wanted) :
    w.onNamed name a =
      if isSyslog s then w.onSyslog (.text Settings.defaultAddress) .none a
      else w.onFile name { a with linePrefix := .text "" } := by
  unfold onNamed
  dsimp only
  split
  · cases htext
  · rw [htext]

/-- What is neither a text nor bytes is no name. -/
theorem onNamed_nameless {name : Value} (htext : name.text? = none)
    (hbytes : ∀ bs, name ≠ .bytes bs) (w : World) (a : Wanted) :
    w.onNamed name a = (w, .error .missingAttribute) := by
  unfold onNamed
  dsimp only
  split
  · exact absurd rfl (hbytes _)
  · rw [htext]

theorem construct_routed (alone : w.target = none)
    (h : Reads w.environment source a route r) :
    ∃ v, Prepared w v ∧ w.construct source a = v.onRoute r route := by
  have hsame : Prepared w w := ⟨rfl, rfl, rfl, rfl, fun _ _ ho => ho⟩
  cases h with
  | outlet o => exact ⟨_, prepared_provide w o, rfl⟩
  | file => exact ⟨w, hsame, rfl⟩
  | syslog => exact ⟨w, hsame, rfl⟩
  | namedSyslog _ htext hword =>
    refine ⟨w, hsame, ?_⟩
    rw [construct, onNamed_text htext, if_pos ((isSyslog_iff _).mpr hword)]
    rfl
  | namedFile _ htext hother =>
    refine ⟨w, hsame, ?_⟩
    rw [construct, onNamed_text htext, if_neg (mt (isSyslog_iff _).mp hother)]
    rfl
  | namedBytes => exact ⟨w, hsame, rfl⟩
  | @settings given s _ _ hloaded hleads =>
    obtain ⟨looks, hread⟩ := render_eq w (Settings.load .standard ⟨given, w.environment⟩)
    have halone : ({ w with looks } : World).target = none := alone
    obtain ⟨notices, hnotices⟩ := announceSettings_notices halone s
    refine ⟨{ w with looks, notices }, ⟨rfl, rfl, rfl, rfl, fun _ _ ho => ho⟩, ?_⟩
    rw [construct, hread, hloaded]
    dsimp only
    rw [hnotices]
    exact onSettings_leads hleads _

theorem construct_unrouted (w : World) (source : Source) (a : Wanted) :
    (∃ route r, Reads w.environment source a route r) ∨
      ∃ looks f, w.construct source a = ({ w with looks }, .error f) := by
  cases source with
  | outlet o => exact .inl ⟨_, _, .outlet o a⟩
  | file path => exact .inl ⟨_, _, .file path a⟩
  | syslog address ident => exact .inl ⟨_, _, .syslog address ident a⟩
  | named name =>
    cases htext : name.text? with
    | some s =>
      by_cases hword : IsSyslog s
      · exact .inl ⟨_, _, .namedSyslog a htext hword⟩
      · exact .inl ⟨_, _, .namedFile a htext hword⟩
    | none =>
      by_cases hbytes : ∃ bs, name = .bytes bs
      · obtain ⟨bs, rfl⟩ := hbytes
        exact .inl ⟨_, _, .namedBytes bs a⟩
      · have hnameless := onNamed_nameless htext (not_exists.mp hbytes) w a
        exact .inr ⟨w.looks, .missingAttribute, hnameless⟩
  | settings given =>
    obtain ⟨looks, hread⟩ := render_eq w (Settings.load .standard ⟨given, w.environment⟩)
    cases hloaded : (Settings.load .standard ⟨given, w.environment⟩).outcome with
    | ok s =>
      obtain ⟨route, hleads⟩ := leads_somewhere s
      exact .inl ⟨_, _, .settings a hloaded hleads⟩
    | error f =>
      refine .inr ⟨looks, f, ?_⟩
      rw [construct, hread, hloaded]

end

end World

end LeveledLog
