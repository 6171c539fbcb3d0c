import LeveledLog.Proofs.Program.Pruning
import LeveledLog.Proofs.Settings.Meaning

/-!
Two ways to a destination: its name, with a priority, header options and a prefix, or settings that
hold all of these. A name takes the prefix to the system log only. With settings that do the same,
the two ways make the same logger, or none for the same fault, and whatever comes after goes alike.
That settings were used is noticed, and it is all that tells the ways apart.
-/

namespace LeveledLog

open Route (IsSyslog OfSettings)
open World (Fresh)

theorem Priority.ofValue_stands {v : Value} {p : Priority} (h : Stands v p) :
    ofValue v = pure p := by
  rcases ofValue_cases v with ⟨q, hq, hstands⟩ | ⟨-, hnone⟩
  · rw [hq, hstands.unique h]
  · exact absurd h (hnone p)

/-- A value that can be taken for header options: if it is a floating-point number, then the set is
among those that are made already. -/
def Flags.Found (made : List Nat) (v : Value) : Prop :=
  ∀ x, v = .float x → ∃ f, ofFloat? made x = some f

/-- A value that stands for header options is taken for them, if they all have a meaning. -/
theorem Flags.ofValue_stands {made : List Nat} {v : Value} {f : Flags} (h : Stands v f)
    (found : Found made v) (known : f.Known) : ofValue made v = pure f := by
  have hinteger : ∀ i, v.int? = some i → ofValue made v = pure f := by
    intro i hi
    obtain rfl : f = ofInt i := h.unique (ofInt_stands hi)
    rcases ofValue_integer made hi with haccepted | ⟨-, hunnameable⟩
    · exact haccepted
    · rw [known.nameable] at hunnameable
      cases hunnameable
  cases h with
  | down integer => exact hinteger _ integer
  | equal same =>
    rcases (v.equals_int_iff _).mp same with hi | ⟨x, rfl, hx⟩
    · exact hinteger _ hi
    · obtain ⟨g, hg⟩ := found x rfl
      obtain rfl : g = f := (ofFloat?_stands hg).unique (.equal same)
      rw [ofValue, hg]

theorem Flags.found_self (made : List Nat) (f : Flags) : Found made (.flags f) := by
  rintro x ⟨⟩

/-- Settings for what a name leads to. The prefix counts on the system log only. -/
def Settings.ofName (name : String) (p : Priority) (linePrefix : String) (f : Flags) :
    Settings where
  destination := some name
  priority := p
  linePrefix := if IsSyslog name then linePrefix else ""
  flags := f
  syslogAddress := Settings.defaultAddress
  syslogIdent := none

def Settings.options (s : Settings) (route : Route) : Options where
  threshold := s.priority
  flags := s.flags.union route.added
  linePrefix := .text s.linePrefix

def Change.besides (looks : Nat) (notices : List Notice) : Change where
  state _ := id
  looks := looks
  notices := notices
  number _ _ := rfl
  worker _ _ := rfl

namespace World

section

variable {w : World} {name linePrefix : String} {p : Priority} {f : Flags} {pv fv x : Value}
  {s : Settings}

theorem changed_besides (w : World) (looks : Nat) (notices : List Notice) :
    w.changed (.besides looks notices) =
      { w with looks := looks + w.looks, notices := notices ++ w.notices } := by
  have hmembers : (w.changed (.besides looks notices)).members = w.members :=
    List.ext_getElem? fun m => (changed_member w m).trans Option.map_id'
  exact congrArg (fun members =>
    { w with members, looks := looks + w.looks, notices := notices ++ w.notices }) hmembers

theorem besides_new (w : World) (looks : Nat) (notices : List Notice) :
    w.New (.besides looks notices) := fun _ _ _ _ _ => rfl

def unnoticed (w : World) : World := { w with looks := 0, notices := [] }

theorem unnoticed_besides (w : World) (looks : Nat) (notices : List Notice) :
    w.unnoticed.changed (.besides looks notices) = { w with looks, notices } := by
  rw [changed_besides]
  exact congrArg (fun notices => { w with looks, notices }) (List.append_nil notices)

/-! ### What is asked for -/

theorem options_stand {host : Host} (priority : Priority.Stands pv p)
    (flags : Flags.Stands fv f) (found : Flags.Found host.made fv) (known : f.Known) (x : Value) :
    Wanted.options host ⟨pv, x, fv⟩ = pure ⟨p, f, x⟩ := by
  rw [Wanted.options, Priority.ofValue_stands priority, Flags.ofValue_stands flags found known]
  rfl

theorem syslogOptions_stand {host : Host} (priority : Priority.Stands pv p)
    (flags : Flags.Stands fv f) (found : Flags.Found host.made fv) (known : f.Known) (x : Value) :
    syslogOptions host ⟨pv, x, fv⟩ = pure ⟨p, f.union (.single .syslog), x⟩ := by
  have hnameable : (f.union (.single .syslog)).nameable = true :=
    (known.union (g := .single .syslog) (by decide)).nameable
  rw [syslogOptions, syslogFlags, Flags.ofValue_stands flags found known,
    Priority.ofValue_stands priority, pure_bind, if_pos hnameable]
  rfl

/-- Where a logger is made on a path or on the system log, values count as what they stand for. -/
theorem onFile_stands (priority : Priority.Stands pv p) (flags : Flags.Stands fv f)
    (w : World) (found : Flags.Found w.host.made fv) (known : f.Known) (path : Value) :
    w.onFile path ⟨pv, x, fv⟩ = w.onFile path ⟨.priority p, x, .flags f⟩ := by
  have hsame : Wanted.options w.host ⟨pv, x, fv⟩ =
      Wanted.options w.host ⟨.priority p, x, .flags f⟩ := by
    rw [options_stand priority flags found known,
      options_stand p.stands_self f.stands_self (Flags.found_self _ f) known]
  obtain ⟨p, files, -, -, hopen⟩ | ⟨-, looks, g, hopen⟩ := openFile_cases w path
  · rw [onFile, onFile, hopen]
    dsimp only
    rw [hsame]
  · rw [onFile, onFile, hopen]

theorem onSyslog_stands (priority : Priority.Stands pv p) (flags : Flags.Stands fv f)
    (w : World) (found : Flags.Found w.host.made fv) (known : f.Known) (address ident : Value) :
    w.onSyslog address ident ⟨pv, x, fv⟩ = w.onSyslog address ident ⟨.priority p, x, .flags f⟩ := by
  have hsame : syslogOptions w.host ⟨pv, x, fv⟩ =
      syslogOptions w.host ⟨.priority p, x, .flags f⟩ := by
    rw [syslogOptions_stand priority flags found known,
      syslogOptions_stand p.stands_self f.stands_self (Flags.found_self _ f) known]
  rw [onSyslog_eq, onSyslog_eq]
  dsimp only
  rw [hsame]

theorem settings_granted (s : Settings) (route : Route) :
    Granted (wantedOf s) route.added (s.options route) :=
  ⟨s.priority.stands_self, ⟨s.flags, s.flags.stands_self, rfl⟩, rfl⟩

theorem onNamed_settings (priority : Priority.Stands pv p) (flags : Flags.Stands fv f)
    (w : World) (found : Flags.Found w.host.made fv) (known : f.Known) :
    w.onNamed (.text name) ⟨pv, .text linePrefix, fv⟩ =
      w.onSettings (.ofName name p linePrefix f) := by
  rw [onNamed_text rfl]
  by_cases hword : IsSyslog name
  · have hsettings : (Settings.ofName name p linePrefix f).linePrefix = linePrefix := if_pos hword
    rw [if_pos ((isSyslog_iff _).mpr hword), onSyslog_stands priority flags w found known,
      onSettings_leads (.syslog rfl hword), wantedOf, hsettings]
    rfl
  · have hsettings : (Settings.ofName name p linePrefix f).linePrefix = "" := if_neg hword
    rw [if_neg (mt (isSyslog_iff _).mp hword), onFile_stands priority flags w found known,
      onSettings_leads (.file rfl hword), wantedOf, hsettings]
    rfl

/-- A logger by the name of its destination is one from settings, with nothing noticed. -/
theorem construct_named (priority : Priority.Stands pv p) (flags : Flags.Stands fv f)
    (w : World) (found : Flags.Found w.host.made fv) (known : f.Known) :
    w.construct (.named (.text name)) ⟨pv, .text linePrefix, fv⟩ =
      changedIn (.besides w.looks w.notices)
        (w.unnoticed.onSettings (.ofName name p linePrefix f)) := by
  rw [construct, onNamed_settings priority flags w found known,
    ← changed_onSettings (besides_new _ _ _), unnoticed_besides]

theorem construct_settings (alone : w.target = none) {given : List (String × Value)}
    (loaded : (Settings.load .standard ⟨given, w.environment⟩).outcome = .ok s) (a : Wanted) :
    ∃ looks, w.construct (.settings given) a =
      changedIn (.besides looks (w.notices ++ w.announcement s)) (w.unnoticed.onSettings s) := by
  obtain ⟨looks, hread⟩ := render_eq w (Settings.load .standard ⟨given, w.environment⟩)
  have halone : ({ w with looks } : World).target = none := alone
  refine ⟨looks, ?_⟩
  rw [construct, hread, loaded]
  dsimp only
  rw [announceSettings_alone halone, ← changed_onSettings (besides_new _ _ _), unnoticed_besides]
  rfl

end

end World

namespace Program

open World

/-- A logger is made in one of two ways, and the program goes on. Of the second way more is noticed,
and nothing else tells them apart. -/
structure Alike (w : World) (e e' : Event) (noticed : List Notice) (es : List Event) : Prop where
  valid : machine.Valid w (e' :: es) ↔ machine.Valid w (e :: es)
  /-- Among the replies is the logger or the fault. -/
  replies : machine.history replies w (e' :: es) = machine.history replies w (e :: es)
  same : ∃ looks later, (machine.after w (e :: es)).notices = w.notices ++ later ∧
    machine.after w (e' :: es) =
      { machine.after w (e :: es) with looks, notices := w.notices ++ noticed ++ later }

structure Interchangeable (w : World) (name linePrefix : String) (p : Priority) (f : Flags)
    (a : Wanted) : Prop where
  given : ∃ given, ∀ environment,
    (Settings.load .standard ⟨given, environment⟩).outcome = .ok (.ofName name p linePrefix f)
  made : ∀ m, (w.construct (.named (.text name)) a).2 = .ok m → m = w.members.length ∧
    ∃ route d, OfSettings (.ofName name p linePrefix f) route ∧
      (w.construct (.named (.text name)) a).1.members = w.members ++
        [⟨Logger.initial (m + 1) ((w.construct (.named (.text name)) a).1.modeOf d)
          ((Settings.ofName name p linePrefix f).options route), d⟩]
  alike : ∀ given b,
    (Settings.load .standard ⟨given, w.environment⟩).outcome = .ok (.ofName name p linePrefix f) →
      ∀ es, Alike w (.make (.named (.text name)) a) (.make (.settings given) b)
        (w.announcement (.ofName name p linePrefix f)) es

section

variable {w : World} {p : World × Except Fault Nat} {looks looks' : Nat} {noticed : List Notice}

theorem run_besides (hs : w.shape.Sound) (looks : Nat) (notices : List Notice) (es : List Event) :
    let c := Change.besides looks notices
    (machine.Valid (w.changed c) es ↔ machine.Valid w es) ∧
      machine.after (w.changed c) es = (machine.after w es).changed c ∧
      machine.history replies (w.changed c) es = machine.history replies w es := by
  refine run_overlooked hs (besides_new w looks notices) fun before e rest _ m le x _ _ => ?_
  exact ⟨Iff.rfl, rfl, fun _ _ _ => rfl, fun _ _ => rfl⟩

/-- Two makings that come to the same but for what is noticed are alike for good. -/
theorem alike_of_besides (hs : p.1.shape.Sound) {source source' : Source} {a a' : Wanted}
    (h : w.construct source a = changedIn (.besides looks w.notices) p)
    (h' : w.construct source' a' = changedIn (.besides looks' (w.notices ++ noticed)) p)
    (es : List Event) : Alike w (.make source a) (.make source' a') noticed es := by
  obtain ⟨hvalid, hafter, hreplies⟩ := run_besides hs looks w.notices es
  obtain ⟨hvalid', hafter', hreplies'⟩ := run_besides hs looks' (w.notices ++ noticed) es
  have hnext : machine.next w (.make source a) = p.1.changed (.besides looks w.notices) :=
    congrArg Prod.fst h
  have hnext' : machine.next w (.make source' a') =
      p.1.changed (.besides looks' (w.notices ++ noticed)) := congrArg Prod.fst h'
  have hresult : (w.construct source' a').2 = (w.construct source a).2 := by
    rw [h, h']
    rfl
  refine ⟨?_, ?_, looks' + (machine.after p.1 es).looks, (machine.after p.1 es).notices, ?_, ?_⟩
  · rw [Machine.Valid, Machine.Valid, hnext, hnext', hvalid, hvalid']
    exact Iff.rfl
  · rw [Machine.history, Machine.history, hnext, hnext', hreplies, hreplies', replies, replies,
      hresult]
  · rw [Machine.after, hnext, hafter]
    rfl
  · rw [Machine.after, Machine.after, hnext, hnext', hafter, hafter', changed_besides,
      changed_besides]

end

/-- Whatever the name, and whatever has happened before, it is no matter whether a logger is made by
its name or from settings. -/
theorem factories_agree {world : World} {before : List Event} (fresh : Fresh world)
    {name linePrefix : String} {p : Priority} {f : Flags} (known : f.Known) {pv fv : Value}
    (priority : Priority.Stands pv p) (flags : Flags.Stands fv f)
    (found : Flags.Found (machine.after world before).host.made fv) :
    Interchangeable (machine.after world before) name linePrefix p f
      ⟨pv, .text linePrefix, fv⟩ := by
  have hs : (machine.after world before).shape.Sound := run_sound fresh.sound before
  generalize machine.after world before = w at hs found
  let s := Settings.ofName name p linePrefix f
  have hnamed : w.construct (.named (.text name)) ⟨pv, .text linePrefix, fv⟩ =
      changedIn (.besides w.looks w.notices) (w.unnoticed.onSettings s) :=
    construct_named priority flags w found known
  refine ⟨⟨s.fields, fun environment => ?_⟩, fun m hm => ?_, fun given b loaded es => ?_⟩
  · rw [Settings.load_fields known]
    rfl
  · obtain ⟨route, hleads⟩ := leads_somewhere s
    rw [hnamed, onSettings_leads hleads, changedIn, changed_besides] at hm ⊢
    obtain ⟨hnumber, o, d, hgranted, hmembers⟩ :=
      (onRoute_concluded w.unnoticed (wantedOf s) route).of_ok hm
    rw [hgranted.unique (settings_granted s route)] at hmembers
    exact ⟨hnumber, route, d, hleads, hmembers⟩
  · obtain ⟨looks, hsettings⟩ := construct_settings hs.alone loaded b
    have hunnoticed : (w.unnoticed.onSettings s).1.shape.Sound :=
      (onSettings_agree (w := w.unnoticed) rfl hs s).2.sound
    exact alike_of_besides hunnoticed hnamed hsettings es

def watched : World :=
  { World.bareProgram with
    network := ⟨true, [("/dev/log", .datagram)], 0, [], [], [], false⟩
    noticeLevel := .debug }

def greeting : List Event :=
  let thread : Thread := .caller 0
  .start 0 thread ⟨.leveled .error (.text "a") [], [], [], .usual⟩ ::
    List.replicate 7 (.caller 0 thread) ++ List.replicate 5 (.worker 0)

/-- The word for the system log counts in any case, and from settings it is noticed. -/
theorem system_log_either_way :
    let wanted : Wanted := ⟨.int 2, .text "p", .int 4⟩
    let s : Settings := .ofName "SysLog" .info "p" ⟨4⟩
    let named := machine.after watched (.make (.named (.text "SysLog")) wanted :: greeting)
    let set := machine.after watched (.make (.settings s.fields) .standard :: greeting)
    let records := [Text.utf8 "<11>May  6 07:08:09 python[1]: a\n".toList]
    named.network.records = records ∧ named.notices.length = 1 ∧
      set.network.records = records ∧ set.notices.length = 2 ∧
      Interchangeable watched "SysLog" "p" .info ⟨4⟩ wanted := by
  intro wanted s named set records
  have fresh : Fresh watched := ⟨rfl, rfl⟩
  have hboth : Interchangeable (machine.after watched []) "SysLog" "p" .info ⟨4⟩ wanted :=
    factories_agree fresh (by decide) rfl (.equal rfl) (by rintro x ⟨⟩)
  exact ⟨by decide +kernel, by decide +kernel, by decide +kernel, by decide +kernel, hboth⟩

end Program

end LeveledLog
