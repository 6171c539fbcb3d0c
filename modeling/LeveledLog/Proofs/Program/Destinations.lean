import LeveledLog.Proofs.Logger.Solo
import LeveledLog.Proofs.Program.Contents
import LeveledLog.Proofs.Syslog.Framing
import LeveledLog.Proofs.Text.Encoding

/-!
Destinations of three kinds agree. A thread makes the same calls of three loggers with the same
options, at the same times and places, and waits. An outlet that takes text is given lines, one that
takes bytes the same lines encoded, and a file has their bytes and nothing else, whatever was in it.
-/

namespace LeveledLog

open World (Fresh OpensAt)

namespace Text

theorem points_ended {l : List Char} {c : Char} :
    (points l).getLast? = some (.char c) ↔ l.getLast? = some c := by
  rw [points, List.getLast?_map, Option.map_eq_some_iff]
  constructor
  · rintro ⟨d, hd, ⟨⟩⟩
    exact hd
  · intro hc
    exact ⟨c, hc, rfl⟩

theorem all_points {ls : List (List CodePoint)} (h : ∀ l ∈ ls, isWhole l = true) :
    ∃ ss : List (List Char), ls = ss.map points := by
  induction ls with
  | nil => exact ⟨[], rfl⟩
  | cons l ls ih =>
    obtain ⟨hl, hls⟩ := List.forall_mem_cons.mp h
    obtain ⟨s, rfl⟩ := isWhole_iff.mp hl
    obtain ⟨ss, rfl⟩ := ih hls
    exact ⟨s :: ss, rfl⟩

end Text

namespace World

section

variable {w : World} {a : Wanted} {m : Nat}

theorem addWith_made {d : Destination} (h : (w.addWith (a.options w.host) d).2 = .ok m) :
    ∃ o, Granted a .empty o ∧ (w.addWith (a.options w.host) d).1.members[m]? =
      some ⟨Logger.initial (m + 1) (w.modeOf d) o, d⟩ := by
  rcases a.options_cases w.host with ⟨o, ho, hgranted, -⟩ | ⟨hfails, -⟩
  · rw [ho, addWith_pure] at h ⊢
    cases h
    exact ⟨o, hgranted, List.getElem?_concat_length⟩
  · obtain ⟨looks, f, hfailed⟩ := addWith_fails hfails w d
    rw [hfailed] at h
    cases h

theorem outlet_made {o : Outlet} (h : (w.construct (.outlet o) a).2 = .ok m) :
    ∃ opts, Granted a .empty opts ∧ (w.construct (.outlet o) a).1.members[m]? =
      some ⟨Logger.initial (m + 1) ((w.construct (.outlet o) a).1.modeOf (.outlet o.name)) opts,
        .outlet o.name⟩ := by
  have hsame : w.construct (.outlet o) a = (w.provide o).onOutlet o.name a := rfl
  rcases onOutlet_cases (w.provide o) o.name a with
    ⟨known, v, k, hknown, -, hadd, hmade⟩ | ⟨looks, f, hfailed⟩
  · rw [hsame, hmade] at h ⊢
    obtain rfl : k = m := Except.ok.inj h
    obtain ⟨opts, hgranted, hmember⟩ := addWith_made (congrArg Prod.snd hadd : _ = Except.ok k)
    obtain ⟨looks, members, hframe⟩ := addWith_frame (w.provide o)
      (a.options (w.provide o).host) (.outlet o.name)
    rw [hadd] at hmember hframe
    obtain rfl : v = { w.provide o with looks, members } := hframe
    have hname : known.name = o.name := outlet?_name hknown
    have hmode : ({ w.provide o with looks, members }.setOutlet
        { known with latest := some k }).modeOf (.outlet o.name) =
          (w.provide o).modeOf (.outlet o.name) := by
      apply setOutlet_modeOf (w := { w.provide o with looks, members }) hknown
      · exact hname
      · rfl
    rw [hmode]
    exact ⟨opts, hgranted, hmember⟩
  · rw [hsame, hfailed] at h
    cases h

theorem file_made {path : Value} (h : (w.construct (.file path) a).2 = .ok m) :
    ∃ opts p, Granted a .empty opts ∧ OpensAt w.files path p ∧
      Files.Erased w.files (w.construct (.file path) a).1.files p ∧
      (w.construct (.file path) a).1.members[m]? =
        some ⟨Logger.initial (m + 1) .bytes opts, .file ⟨p, 0⟩⟩ := by
  have hsame : w.construct (.file path) a = w.onFile path a := rfl
  rcases onFile_cases w path a with ⟨p, files, hopens, herased, hmade⟩ | ⟨-, looks, f, hfailed⟩
  · rw [hsame, hmade] at h ⊢
    obtain ⟨opts, hgranted, hmember⟩ := addWith_made h
    rw [addWith_kept]
    exact ⟨opts, p, hgranted, hopens, herased, hmember⟩
  · rw [hsame, hfailed] at h
    cases h

def arguments (w : World) (name : String) : List OutletEvent :=
  ((w.outlet? name).map Outlet.arguments).getD []

end

end World

namespace Program

/-- Of what concerns a logger, an event is a step of its worker or of the one thread that calls. -/
def ByThread (m : Nat) (t : Thread) : Event → Prop
  | .start k q _ => k = m → q = t
  | .caller k q => k = m → q = t
  | .collect k q => k = m → q = t
  | .ownCall k _ => k ≠ m
  | _ => True

instance (m : Nat) (t : Thread) (e : Event) : Decidable (ByThread m t e) :=
  match e with
  | .start k q _ | .caller k q | .collect k q =>
    (instDecidableForall : Decidable (k = m → q = t))
  | .ownCall k _ => (instDecidableNot : Decidable (k ≠ m))
  | .make .. | .setClock _ | .permit .. | .disturb _ | .note _ | .remark .. | .worker _ =>
    instDecidableTrue

/-- A logger that a program makes, and all until the one thread that calls it has waited. Nobody
else writes to the destination. -/
structure Job (t : Thread) (source : Source) (wanted : Wanted) where
  world : World
  fresh : Fresh world
  before : List Event
  rest : List Event
  valid : machine.Valid world (before ++ .make source wanted :: rest)
  m : Nat
  made : ((machine.after world before).construct source wanted).2 = .ok m
  alone : ∀ e ∈ rest, ByThread m t e
  sole : Sole (machine.after world (before ++ .make source wanted :: rest)) m
  /-- What destinations note of themselves is not what a write was called with. -/
  unmarked : ∀ name noted, .remark name noted ∈ rest → noted.isArgument = false
  waited : World.isSynced
    ((machine.after world (before ++ .make source wanted :: rest)).outcomeOf? m t)

def begunOf (m : Nat) (t : Thread) : Event → List Invocation
  | .start k q i => if k = m ∧ q = t then [i] else []
  | _ => []

section

variable {w : World} {m : Nat} {t : Thread} {es : List Event}

theorem run_begun (w : World) (m : Nat) (t : Thread) (es : List Event) :
    Logger.started t (machine.history (share m) w es) = es.flatMap (begunOf m t) := by
  induction es generalizing w with
  | nil => rfl
  | cons e es ih =>
    have hone : Logger.started t (share m w e) = begunOf m t e := by
      unfold share
      cases e with
      | start k q i =>
        by_cases hk : k = m <;> by_cases hq : q = t <;>
          simp [part?, begunOf, Logger.started, Logger.begun, hk, hq]
      | caller k q | collect k q | worker k | ownCall k i =>
        by_cases hk : k = m <;> simp [part?, begunOf, Logger.started, Logger.begun, hk]
      | make | setClock | permit | disturb | note | remark => rfl
    rw [Machine.history, Logger.started, List.flatMap_append, List.flatMap_cons, ← hone, ← ih]
    rfl

theorem run_clock (hs : w.shape.Sound) (own : ∀ e ∈ es, ∀ w, (part? w e).isSome) :
    ∀ p ∈ machine.history (share m) w es, p.1 = w.clock := by
  induction es generalizing w with
  | nil => simp [Machine.history]
  | cons e es ih =>
    intro p hp
    rcases List.mem_append.mp hp with hnow | hlater
    · unfold share at hnow
      split at hnow
      · split at hnow
        · rw [List.mem_singleton.mp hnow]
        · cases hnow
      · cases hnow
    · obtain ⟨q, hq⟩ := Option.isSome_iff_exists.mp (own e List.mem_cons_self w)
      have hclock : (next w e).clock = w.clock := congrArg Shape.clock (own_shape hs hq)
      rw [ih (next_sound hs e) (fun e he => own e (List.mem_cons_of_mem _ he)) p hlater]
      exact hclock

end

namespace Job

section

variable {t : Thread} {source : Source} {wanted : Wanted} (j : Job t source wanted)

def origin : World := machine.after j.world j.before

def start : World := (j.origin.construct source wanted).1

def stop : World := machine.after j.start j.rest

def calls : List (Stamp × Invocation) :=
  match j.start.members[j.m]? with
  | some x => Logger.performed t x.state (machine.history (share j.m) j.start j.rest)
  | none => []

theorem valid_rest : machine.Valid j.start j.rest := by
  obtain ⟨-, -, hrest⟩ := (machine.valid_append _ _ _).mp j.valid
  exact hrest

theorem after_eq :
    machine.after j.world (j.before ++ .make source wanted :: j.rest) = j.stop := by
  rw [Machine.after_append]
  rfl

theorem sole_stop : Sole (machine.after j.start j.rest) j.m := by
  have hsole := j.sole
  rw [j.after_eq] at hsole
  exact hsole

theorem start_sound : j.start.shape.Sound :=
  next_sound (run_sound j.fresh.sound j.before) (.make source wanted)

theorem alone_share : ∀ e ∈ machine.history (share j.m) j.start j.rest,
    Logger.OnlyThread t e.2 := by
  rintro ⟨n, le⟩ hle
  obtain ⟨e, he, u, hp⟩ := mem_run hle
  have hthread := j.alone e he
  cases e with
  | start | caller | collect =>
    cases hp
    exact hthread rfl
  | worker =>
    cases hp
    trivial
  | ownCall =>
    cases hp
    exact hthread rfl
  | make | setClock | permit | disturb | note | remark => cases hp

section

variable {mode : Mode} {o : Options} {d : Destination}
  (hx : j.start.members[j.m]? = some ⟨Logger.initial (j.m + 1) mode o, d⟩)

include hx

theorem valid_share : Logger.machine.Valid (Logger.initial (j.m + 1) mode o)
    (machine.history (share j.m) j.start j.rest) :=
  (run_member j.start_sound j.valid_rest hx).1

theorem waited_share : ∃ looks, (Logger.machine.after (Logger.initial (j.m + 1) mode o)
    (machine.history (share j.m) j.start j.rest)).callers t =
      .done (.returned (.bool true)) looks := by
  obtain ⟨-, d', hlast, -⟩ := run_member j.start_sound j.valid_rest hx
  have hanswer := j.waited
  rw [j.after_eq, World.outcomeOf?, stop, hlast] at hanswer
  dsimp only at hanswer
  split at hanswer
  · rename_i outcome looks hdone
    refine ⟨looks, hdone.trans ?_⟩
    unfold World.isSynced at hanswer
    split at hanswer
    · rename_i b hb
      rw [Option.some.inj hb, hanswer]
    · cases hanswer
  · cases hanswer

/-- What the destination was to be written with are the lines of the direct logger. -/
theorem tried :
    (machine.history (tries j.m) j.start j.rest).map Try.line = Direct.log o j.calls := by
  obtain ⟨looks, hwaited⟩ := j.waited_share hx
  rw [run_tries j.start_sound j.valid_rest hx, calls, hx]
  exact Logger.solo_written (j.valid_share hx) j.alone_share hwaited

/-- All that was tried is what the destination can be given. -/
theorem tried_given : ∀ l ∈ Direct.log o j.calls, mode.takes l = true := by
  intro l hl
  have hvalid := j.valid_share hx
  have hattempt : l ∈ (Logger.machine.after (Logger.initial (j.m + 1) mode o)
      (machine.history (share j.m) j.start j.rest)).attempts := by
    rw [← Logger.run_written hvalid, ← run_tries j.start_sound j.valid_rest hx, j.tried hx]
    exact List.mem_append_left _ hl
  have hgiven := Logger.reachable_given (Logger.reachable_of_valid hvalid) l hattempt
  rwa [Logger.run_mode hvalid] at hgiven

/-- When nothing happens but steps of loggers, the calls are those that the thread has begun, at
what the clock has shown all the time. -/
theorem calls_begun (own : ∀ e ∈ j.rest, ∀ w, (part? w e).isSome) :
    j.calls = (j.rest.flatMap (begunOf j.m t)).map (j.start.clock, ·) := by
  obtain ⟨looks, hwaited⟩ := j.waited_share hx
  have hcalls := Logger.run_calls (j.valid_share hx) t
  have hnone : (Progress.done (.returned (.bool true)) looks).pending = [] := rfl
  rw [hwaited, run_begun, hnone, List.append_nil] at hcalls
  have hclock := Logger.performed_clock (t := t) (s := Logger.initial (j.m + 1) mode o)
    (run_clock (m := j.m) j.start_sound own)
  rw [calls, hx, ← hcalls, List.map_map]
  refine (List.map_id _).symm.trans (List.map_congr_left fun c hc => ?_)
  exact Prod.ext (hclock c hc) rfl

end

end

end Job

/-- The outlet that a logger is made on fails no write; it takes text, or it takes bytes. -/
def Job.Into {t : Thread} {o : Outlet} {wanted : Wanted} (j : Job t (.outlet o) wanted)
    (mode : Mode) : Prop :=
  ∃ known, j.start.outlet? o.name = some known ∧ known.mode = mode ∧
    ∀ r ∈ known.writes, r = none

def Job.Spared {t : Thread} {path : Value} {wanted : Wanted} (j : Job t (.file path) wanted) :
    Prop :=
  ∀ p, OpensAt j.origin.files path p → ∀ before e after, j.rest = before ++ e :: after →
    Spares p (machine.after j.start before) e

section

variable {t : Thread} {wanted : Wanted} {o : Outlet} {path : Value}

theorem Job.outlet_given (j : Job t (.outlet o) wanted) {mode : Mode}
    (into : j.Into mode) : ∃ opts, Granted wanted .empty opts ∧
      j.stop.arguments o.name = j.start.arguments o.name ++
        (Direct.log opts j.calls).map (Outlet.argument mode) ∧
      ∀ l ∈ Direct.log opts j.calls, mode.takes l = true := by
  obtain ⟨known, hknown, rfl, hunfailing⟩ := into
  obtain ⟨opts, hgranted, hx⟩ := World.outlet_made j.made
  have hmode : j.start.modeOf (.outlet o.name) = known.mode := by rw [World.modeOf, hknown]; rfl
  have hgiven : ∀ l ∈ Direct.log opts j.calls,
      (j.start.modeOf (.outlet o.name)).takes l = true := j.tried_given hx
  rw [hmode] at hgiven
  have hi : j.start.intake o.name = some known.intake := by rw [World.intake, hknown]; rfl
  obtain ⟨i', hi', htook⟩ := run_took j.start_sound j.valid_rest hx rfl j.sole_stop
    (j.unmarked o.name) hi hunfailing
  refine ⟨opts, hgranted, ?_, hgiven⟩
  obtain ⟨last, hlast, rfl⟩ := Option.map_eq_some_iff.mp hi'
  rw [World.arguments, World.arguments, hknown, stop, hlast, ← j.tried hx]
  exact htook.arguments

theorem Job.file_holds (j : Job t (.file path) wanted) (spared : j.Spared) :
    ∃ opts bs g, Granted wanted .empty opts ∧ World.pathBytes path = .ok bs ∧
      j.stop.files.read bs = .ok g ∧
      g.content = ((Direct.log opts j.calls).map Text.encode).flatten := by
  obtain ⟨opts, p, hgranted, hopens, herased, hx⟩ := World.file_made j.made
  have herased : Files.Erased j.origin.files j.start.files p := herased
  have happends : j.start.Appends j.m p [] := ⟨⟨_, hx, rfl⟩, by rw [herased.target]; rfl⟩
  have hend := run_appends j.start_sound j.valid_rest j.sole_stop
    (spared p hopens) happends
  rw [j.tried hx, List.nil_append] at hend
  obtain ⟨g, hg, hcontent⟩ := Option.map_eq_some_iff.mp hend.file
  obtain ⟨bs, opened, hbytes, hopen⟩ := hopens
  refine ⟨opts, bs, g, hgranted, hbytes, Files.read_opened hopen ?_ hg, hcontent⟩
  exact (run_directories j.start_sound j.rest).trans herased.directories

structure Agree {textual binary : Outlet} (text : Job t (.outlet textual) wanted)
    (bytes : Job t (.outlet binary) wanted) (file : Job t (.file path) wanted)
    (lines : List (List Char)) : Prop where
  text : text.stop.arguments textual.name =
    text.start.arguments textual.name ++ (lines.map Text.points).map .text
  bytes : bytes.stop.arguments binary.name =
    bytes.start.arguments binary.name ++ (lines.map Text.utf8).map .bytes
  decoded : (lines.map Text.utf8).map Text.decode? = lines.map some
  whole : ∀ l ∈ lines, (l ≠ [] ∧ l.getLast? = some '\n') ∧
    Text.utf8 l ≠ [] ∧ (Text.utf8 l).getLast? = some Text.newline
  /-- The path leads to the bytes and nothing else. -/
  file : ∃ bs g, World.pathBytes path = .ok bs ∧ file.stop.files.read bs = .ok g ∧
    g.content = (lines.map Text.utf8).flatten

/-- Destinations of three kinds take the same lines of the same calls, if on each of them the wait
comes to an end. Then no line has a surrogate in it. -/
theorem destinations_agree {textual binary : Outlet} (text : Job t (.outlet textual) wanted)
    (bytes : Job t (.outlet binary) wanted) (file : Job t (.file path) wanted)
    (intoText : text.Into .text) (intoBytes : bytes.Into .bytes) (spared : file.Spared)
    (sameBytes : bytes.calls = text.calls) (sameFile : file.calls = text.calls) :
    ∃ opts lines, Granted wanted .empty opts ∧
      Direct.log opts text.calls = lines.map Text.points ∧ Agree text bytes file lines := by
  obtain ⟨opts, hgranted, htext, -⟩ := text.outlet_given intoText
  obtain ⟨opts', hgranted', hbytes, hwhole⟩ := bytes.outlet_given intoBytes
  obtain ⟨opts'', bs, g, hgranted'', hpath, hread, hcontent⟩ := file.file_holds spared
  obtain rfl := hgranted.unique hgranted'
  obtain rfl := hgranted.unique hgranted''
  rw [sameBytes] at hbytes hwhole
  rw [sameFile] at hcontent
  obtain ⟨lines, hlines⟩ := Text.all_points hwhole
  have hencode (ls : List (List Char)) :
      (ls.map Text.points).map Text.encode = ls.map Text.utf8 := by
    rw [List.map_map]
    exact List.map_congr_left fun l _ => Text.encode_points l
  have hended : ∀ l ∈ lines, l.getLast? = some '\n' := by
    intro l hl
    have hlog : Text.points l ∈ Direct.log opts text.calls := by
      rw [hlines]
      exact List.mem_map_of_mem hl
    exact Text.points_ended.mp (Direct.log_ended hlog)
  rw [hlines] at htext hbytes hcontent
  refine ⟨opts, lines, hgranted, hlines, htext, ?_, ?_, ?_, bs, g, hpath, hread, ?_⟩
  · rw [hbytes, ← hencode]
    exact congrArg _ List.map_map.symm
  · rw [List.map_map]
    exact List.map_congr_left fun l _ => Text.decode_utf8 l
  · intro l hl
    have hencoded : (Text.utf8 l).getLast? = some 0x0a := by
      rw [← Text.encode_points]
      exact Text.encode_ended (Text.points_ended.mpr (hended l hl))
    refine ⟨⟨?_, hended l hl⟩, ?_, hencoded⟩
    · rintro rfl
      cases hended _ hl
    · intro hnil
      rw [hnil] at hencoded
      cases hencoded
  · rw [hcontent, hencode]

end

/-- A message of two lines, a backtrace, a message under other flags, and the wait for all. -/
def fewCalls : List Event :=
  let main : Thread := .caller 0
  let stack : Stack := [⟨"/d/x", some 7, none, "f"⟩, ⟨"/d/ÿ", some 9, none, "g"⟩]
  let begins (c : Call) : List Event := [.start 0 main ⟨c, stack, [], .usual⟩]
  let step (k : Nat) : List Event := List.replicate k (.caller 0 main)
  let work (k : Nat) : List Event := List.replicate k (.worker 0)
  let ends : List Event := [.collect 0 main]
  begins (.leveled .error (.text "é\nß") []) ++ step 7 ++ work 3 ++ step 4 ++ ends ++
    begins (.backtrace (.int 0)) ++ step 6 ++ work 5 ++ step 4 ++ ends ++
    begins (.setFlags (.int 0)) ++ step 2 ++ ends ++
    begins (.print [.text "z"]) ++ step 6 ++ work 5 ++ step 4 ++ ends ++
    begins .sync ++ step 6 ++ work 5 ++ step 3 ++ work 1 ++ step 2

def fewInvocations : List Invocation := fewCalls.flatMap (begunOf 0 (.caller 0))

theorem fewCalls_own : ∀ e ∈ fewCalls, ∀ w, (part? w e).isSome := by
  intro e he w
  have hown : (part? World.bareProgram e).isSome := by
    revert e
    decide +kernel
  cases e with
  | make | setClock | permit | disturb | note | remark => cases hown
  | _ => rfl

theorem sole_of_single {w : World} (h : w.members.length = 1) : Sole w 0 := by
  intro k x y _ hy _
  have hlt := (List.getElem?_eq_some_iff.mp hy).1
  omega

def fewCallsOf (world : World) (source : Source) (fresh : Fresh world)
    (valid : machine.Valid world (.make source shortFile :: fewCalls))
    (made : (world.construct source shortFile).2.toOption = some 0)
    (single : (machine.after world (.make source shortFile :: fewCalls)).members.length = 1)
    (waited : World.isSynced
      ((machine.after world (.make source shortFile :: fewCalls)).outcomeOf? 0 (.caller 0))) :
    Job (.caller 0) source shortFile where
  world := world
  fresh := fresh
  before := []
  rest := fewCalls
  valid := valid
  m := 0
  made := made_of_option made
  alone := by decide +kernel
  sole := sole_of_single single
  unmarked := by
    intro name noted h
    cases fewCalls_own _ h world
  waited := waited

def fewTexts : Job (.caller 0) (.outlet (.plain "t" .text)) shortFile :=
  fewCallsOf World.bareProgram _ ⟨rfl, rfl⟩ (by decide +kernel) (by decide +kernel)
    (by decide +kernel) (by decide +kernel)

def fewBytes : Job (.caller 0) (.outlet (.plain "b" .bytes)) shortFile :=
  fewCallsOf World.bareProgram _ ⟨rfl, rfl⟩ (by decide +kernel) (by decide +kernel)
    (by decide +kernel) (by decide +kernel)

def fewFiled : Job (.caller 0) (.file (.text "log")) shortFile :=
  fewCallsOf World.keptLog _ ⟨rfl, rfl⟩ (by decide +kernel) (by decide +kernel)
    (by decide +kernel) (by decide +kernel)

theorem few_destinations_agree :
    fewTexts.stop.arguments "t" = [.text (Text.points "<4>:(x:7) é\nß\n".toList),
        .text (Text.points "Backtrace:\n    /d/ÿ:9 [?.g]\n    \n".toList),
        .text (Text.points "<2>:z\n".toList)] ∧
      ∃ opts lines, Granted shortFile .empty opts ∧
        Direct.log opts fewTexts.calls = lines.map Text.points ∧
        Agree fewTexts fewBytes fewFiled lines := by
  obtain ⟨_, -, htext⟩ := World.outlet_made fewTexts.made
  obtain ⟨_, -, hbytes⟩ := World.outlet_made fewBytes.made
  obtain ⟨_, _, -, -, -, hfile⟩ := World.file_made fewFiled.made
  have htextCalls : fewTexts.calls = fewInvocations.map (fewTexts.start.clock, ·) :=
    fewTexts.calls_begun htext fewCalls_own
  have hbytesCalls : fewBytes.calls = fewInvocations.map (fewBytes.start.clock, ·) :=
    fewBytes.calls_begun hbytes fewCalls_own
  have hfileCalls : fewFiled.calls = fewInvocations.map (fewFiled.start.clock, ·) :=
    fewFiled.calls_begun hfile fewCalls_own
  have hbytesClock : fewBytes.start.clock = fewTexts.start.clock := by decide +kernel
  have hfileClock : fewFiled.start.clock = fewTexts.start.clock := by decide +kernel
  refine ⟨by decide +kernel, destinations_agree fewTexts fewBytes fewFiled ?_ ?_ ?_ ?_ ?_⟩
  · exact ⟨_, rfl, rfl, by simp [Outlet.plain]⟩
  · exact ⟨_, rfl, rfl, by simp [Outlet.plain]⟩
  · intro p _ before e after hrest
    have hown := fewCalls_own e (by rw [show fewCalls = _ from hrest]; simp)
    cases e with
    | make => cases hown World.keptLog
    | _ => trivial
  · rw [htextCalls, hbytesCalls, hbytesClock]
  · rw [htextCalls, hfileCalls, hfileClock]

/-- A line with a surrogate in it, and the wait, on an outlet that takes text. -/
def uttered : List Event :=
  let main : Thread := .caller 0
  let begins (c : Call) : List Event := [.start 0 main ⟨c, [], [], .usual⟩]
  let step (k : Nat) : List Event := List.replicate k (.caller 0 main)
  let work (k : Nat) : List Event := List.replicate k (.worker 0)
  begins (.leveled .error (.text "%c") [.int 0xd800]) ++ step 7 ++ work 3 ++ step 4 ++
    [.collect 0 main] ++ begins .sync ++ step 6 ++ work 5 ++ step 3 ++ work 1 ++ step 2

def stifled : List Event :=
  let main : Thread := .caller 0
  let begins (c : Call) : List Event := [.start 0 main ⟨c, [], [], .usual⟩]
  let step (k : Nat) : List Event := List.replicate k (.caller 0 main)
  let work (k : Nat) : List Event := List.replicate k (.worker 0)
  work 3 ++ begins (.leveled .error (.text "%c") [.int 0xd800]) ++ step 7 ++ work 2 ++ step 4 ++
    work 1 ++ [.collect 0 main] ++ begins .sync ++ step 6

/-- The text is written and the wait ends, but the bytes never are, and it never does. -/
theorem stifled_disagree :
    let main : Thread := .caller 0
    let makes (name : String) (mode : Mode) : Event := .make (.outlet (.plain name mode)) shortFile
    let texts := machine.after World.bareProgram (makes "t" .text :: uttered)
    let bytes := machine.after World.bareProgram (makes "b" .bytes :: stifled)
    machine.Valid World.bareProgram (makes "t" .text :: uttered) ∧
      machine.Valid World.bareProgram (makes "b" .bytes :: stifled) ∧
      stifled.flatMap (begunOf 0 main) = uttered.flatMap (begunOf 0 main) ∧
      texts.arguments "t" =
        [.text (Text.points "<4>:(???:0) ".toList ++ [.surrogate 0, .char '\n'])] ∧
      World.isSynced (texts.outcomeOf? 0 main) = true ∧
      ∀ rest, machine.Valid bytes rest → ∀ x, (machine.after bytes rest).members[0]? = some x →
        x.state.attempts = [] ∧ ¬Logger.IsDone (x.state.callers main) := by
  intro main makes texts bytes
  have fresh : Fresh World.bareProgram := ⟨rfl, rfl⟩
  have hvalid : machine.Valid World.bareProgram (makes "b" .bytes :: stifled) := by
    decide +kernel
  have hs : bytes.shape.Sound := run_sound fresh.sound _
  have hstuck : (bytes.members[0]?.map fun x => (x.state.attempts,
      decide (Logger.Ended x.state.worker ∧
        Logger.Barred x.state.released (x.state.callers main)))) = some ([], true) := by
    decide +kernel
  obtain ⟨y, hy, hstate⟩ := Option.map_eq_some_iff.mp hstuck
  obtain ⟨hnone, hdecided⟩ := Prod.mk.inj hstate
  obtain ⟨hended, hbarred⟩ := of_decide_eq_true hdecided
  have hreachable := reachable_member fresh hvalid hy
  refine ⟨by decide +kernel, hvalid, rfl, by decide +kernel, by decide +kernel, ?_⟩
  intro rest hrest x hx
  obtain ⟨hsince, d, hlast, -⟩ := run_member hs hrest hy
  obtain rfl := Option.some.inj (hlast.symm.trans hx)
  have hdeserted := Logger.run_deserted hsince hended
  exact ⟨hdeserted.attempts.trans hnone, Logger.run_never_done hreachable hsince hended hbarred⟩

end Program

end LeveledLog
