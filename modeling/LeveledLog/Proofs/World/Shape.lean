import LeveledLog.World.Session
import Mathlib.Data.List.Basic

/-!
What the making of loggers depends on, and the steps of loggers leave alone: the clock, where the
loggers write to, which places there are in the file system and which sockets, and which outlets can
be written to. What has been written anywhere is not part of it.
-/

namespace LeveledLog

/-- A destination as it was when its logger was made. -/
def Destination.home : Destination → Destination
  | .file f => .file { f with position := 0 }
  | d => d

/-- What is seen of an outlet when a logger is made on it. -/
structure Face where
  writable : Bool
  mode : Mode
  latest : Option Nat

def Outlet.face (o : Outlet) : Face := ⟨o.writable, o.mode, o.latest⟩

/-- The network without what came of the sends. -/
def Network.quiet (n : Network) : Network := { n with failures := 0, events := [] }

structure Shape where
  clock : Stamp
  host : Host
  program : List String
  process : Nat
  environment : List (String × String)
  target : Option Nat
  homes : List Destination
  directories : List Place
  places : Place → Bool
  network : Network
  faces : String → Option Face

def World.shape (w : World) : Shape where
  clock := w.clock
  host := w.host
  program := w.program
  process := w.process
  environment := w.environment
  target := w.target
  homes := w.members.map fun x => x.destination.home
  directories := w.files.directories
  places p := (w.files.file? p).isSome
  network := w.network.quiet
  faces name := (w.outlet? name).map Outlet.face

namespace Shape

def Bound (h : Shape) (k : Nat) (name : String) : Prop := h.homes[k]? = some (.outlet name)

structure Sound (h : Shape) : Prop where
  /-- Notices are sent to no logger. -/
  alone : h.target = none
  placed : ∀ p, .file ⟨p, 0⟩ ∈ h.homes → h.places p = true
  known : ∀ k name, h.Bound k name → ∃ face, h.faces name = some face
  latest : ∀ j k name face, h.Bound j name → h.faces name = some face → face.latest = some k →
    h.Bound k name

theorem bound_unique {h : Shape} {j k : Nat} {name : String} (distinct : h.homes.Nodup)
    (hj : h.Bound j name) (hk : h.Bound k name) : j = k := by
  obtain ⟨hlt, -⟩ := List.getElem?_eq_some_iff.mp hj
  exact (List.getElem?_inj hlt distinct).mp (hj.trans hk.symm)

end Shape

namespace Files

theorem lookup_replaced (l : List (Place × File)) (p q : Place) (f : File) :
    (l.map fun e => if e.1 = p then (p, f) else e).lookup q =
      if q = p then (l.lookup q).map fun _ => f else l.lookup q := by
  induction l with
  | nil => simp
  | cons e l ih =>
    obtain ⟨r, g⟩ := e
    by_cases hr : r = p
    · subst r
      by_cases hq : q = p
      · subst q
        simp
      · have hne : (q == p) = false := by simpa using hq
        simp [List.lookup_cons, hne, hq, ih]
    · by_cases hq : q = r
      · subst q
        simp [hr]
      · have hne : (q == r) = false := by simpa using hq
        simp [List.lookup_cons, hr, hne, ih]

theorem file?_put (fs : Files) (p : Place) (f : File) (q : Place) :
    (fs.put p f).file? q = if q = p then some f else fs.file? q := by
  unfold put
  split
  · rename_i hsome
    refine (lookup_replaced fs.files p q f).trans ?_
    by_cases hq : q = p
    · subst q
      obtain ⟨g, hg⟩ := Option.isSome_iff_exists.mp hsome
      change fs.files.lookup p = some g at hg
      simp [hg]
    · simp [hq, file?]
  · rename_i hnone
    by_cases hq : q = p
    · subst q
      have hlookup : fs.files.lookup p = none := Option.not_isSome_iff_eq_none.mp hnone
      simp [file?, List.lookup_append, hlookup]
    · have hne : (q == p) = false := by simpa using hq
      simp [file?, List.lookup_append, List.lookup_cons, hne, hq]

theorem put_directories (fs : Files) (p : Place) (f : File) :
    (fs.put p f).directories = fs.directories := by
  unfold put
  split <;> rfl

end Files

namespace World

section

variable {w : World} {m j : Nat} {x y : Member} {o old : Outlet} {name : String}

theorem outlet?_name (h : w.outlet? name = some o) : o.name = name := by
  simpa using List.find?_some h

theorem outlet?_setOutlet (w : World) (o : Outlet) (name : String) :
    (w.setOutlet o).outlet? name =
      if o.name = name then (w.outlet? name).map fun _ => o else w.outlet? name := by
  have hsame :
    ((fun x : Outlet => x.name == name) ∘ fun old => if old.name == o.name then o else old) =
      fun x => x.name == name := by
    funext old
    by_cases h : old.name = o.name <;> simp [h]
  unfold setOutlet outlet?
  rw [List.find?_map, hsame]
  cases hfound : w.outlets.find? (·.name == name) with
  | none => simp
  | some old =>
    have hname : old.name = name := outlet?_name hfound
    by_cases h : o.name = name
    · simp [h, hname]
    · have hne : ¬name = o.name := fun heq => h heq.symm
      simp [h, hname, hne]

theorem setOutlet_faces (ho : w.outlet? o.name = some old) :
    (w.setOutlet o).shape = { w.shape with
      faces := fun name => if o.name = name then some o.face else w.shape.faces name } := by
  have hfaces : (fun name => ((w.setOutlet o).outlet? name).map Outlet.face) =
      fun name => if o.name = name then some o.face else (w.outlet? name).map Outlet.face := by
    funext name
    rw [outlet?_setOutlet]
    split
    · subst name
      simp [ho]
    · rfl
  exact congrArg (fun faces => { w.shape with faces }) hfaces

theorem setOutlet_shape (ho : w.outlet? o.name = some old) (hface : o.face = old.face) :
    (w.setOutlet o).shape = w.shape := by
  have hfaces : (fun name => if o.name = name then some o.face else w.shape.faces name) =
      w.shape.faces := by
    funext name
    split
    · subst name
      simp [shape, ho, hface]
    · rfl
  rw [setOutlet_faces ho, hfaces]

theorem setMember_shape (hx : w.members[m]? = some x)
    (hhome : y.destination.home = x.destination.home) : (w.setMember m y).shape = w.shape := by
  have hhomes : (w.members.set m y).map (fun x => x.destination.home) =
      w.members.map fun x => x.destination.home := by
    refine List.ext_getElem? fun k => ?_
    rw [List.getElem?_map, List.getElem?_map, List.getElem?_set]
    split
    · subst k
      obtain ⟨hlt, hget⟩ := List.getElem?_eq_some_iff.mp hx
      simp [hlt, hget, hhome]
    · rfl
  exact congrArg (fun homes => { w.shape with homes }) hhomes

theorem setMember_self (hx : w.members[m]? = some x) : (w.setMember m y).members[m]? = some y := by
  obtain ⟨hlt, -⟩ := List.getElem?_eq_some_iff.mp hx
  simp [setMember, hlt]

theorem setMember_other (h : j ≠ m) : (w.setMember m y).members[j]? = w.members[j]? :=
  List.getElem?_set_ne (Ne.symm h)

theorem event_self (hx : w.members[m]? = some x) (e : Logger.Event) :
    (w.event m e).members[m]? = some { x with state := Logger.next w.clock x.state e } := by
  simp only [event, hx]
  exact setMember_self hx

theorem event_shape (w : World) (m : Nat) (e : Logger.Event) : (w.event m e).shape = w.shape := by
  unfold event
  split
  · rfl
  · rename_i x hx
    exact setMember_shape hx rfl

theorem event_other (w : World) (e : Logger.Event) (h : j ≠ m) :
    (w.event m e).members[j]? = w.members[j]? := by
  unfold event
  split
  · rfl
  · exact setMember_other h

theorem event_outlets (w : World) (m : Nat) (e : Logger.Event) :
    (w.event m e).outlets = w.outlets := by
  unfold event
  split <;> rfl

theorem event_network (w : World) (m : Nat) (e : Logger.Event) :
    (w.event m e).network = w.network := by
  unfold event
  split <;> rfl

theorem home_of_member (hx : w.members[m]? = some x) :
    w.shape.homes[m]? = some x.destination.home := by
  simp [shape, hx]

theorem bound_iff (hx : w.members[m]? = some x) :
    w.shape.Bound m name ↔ x.destination = .outlet name := by
  rw [Shape.Bound, home_of_member hx]
  cases x.destination <;> simp [Destination.home]

theorem outlet_of_member (hs : w.shape.Sound) (hx : w.members[m]? = some x)
    (hd : x.destination = .outlet name) : ∃ o, w.outlet? name = some o := by
  obtain ⟨face, hface⟩ := hs.known m name ((bound_iff hx).mpr hd)
  obtain ⟨o, ho, -⟩ := Option.map_eq_some_iff.mp hface
  exact ⟨o, ho⟩

end

end World

end LeveledLog
