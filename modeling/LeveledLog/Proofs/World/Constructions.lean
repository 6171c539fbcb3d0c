import LeveledLog.Proofs.World.Lockstep
import LeveledLog.Proofs.World.Turns

/-!
The making of a logger. Whether it succeeds, with which destination, and what it changes depends on
the shape of the program alone, so in two programs of one shape the same logger is made. Files are
compared by where they are, and not by what they hold.
-/

namespace LeveledLog

namespace Shape

variable {g h : Shape}

/-- Places may be added, and the outlets that nobody writes to do not matter. -/
theorem Sound.grown (hg : g.Sound) (htarget : h.target = g.target) (hhomes : h.homes = g.homes)
    (hplaces : ∀ p, g.places p = true → h.places p = true)
    (hfaces : ∀ k name, g.Bound k name → h.faces name = g.faces name) : h.Sound := by
  have hbound : ∀ k name, h.Bound k name ↔ g.Bound k name := by
    intro k name
    rw [Bound, Bound, hhomes]
  refine ⟨htarget.trans hg.alone, ?_, ?_, ?_⟩
  · intro p hp
    rw [hhomes] at hp
    exact hplaces p (hg.placed p hp)
  · intro k name hk
    rw [hbound] at hk
    rw [hfaces k name hk]
    exact hg.known k name hk
  · intro j k name face hj hface hlatest
    rw [hbound] at hj ⊢
    rw [hfaces j name hj] at hface
    exact hg.latest j k name face hj hface hlatest

theorem bound_append (g : Shape) (d : Destination) (k : Nat) (name : String) :
    ({ g with homes := g.homes ++ [d] }).Bound k name ↔
      g.Bound k name ∨ (k = g.homes.length ∧ d = .outlet name) := by
  unfold Bound
  dsimp only
  rcases Nat.lt_trichotomy k g.homes.length with hlt | rfl | hgt
  · rw [List.getElem?_append_left hlt]
    simp [Nat.ne_of_lt hlt]
  · simp
  · have hle := Nat.le_of_lt hgt
    have hne : k - g.homes.length ≠ 0 := by omega
    rw [List.getElem?_append_right hle, List.getElem?_eq_none hle]
    simp [hne, Nat.ne_of_gt hgt]

theorem Sound.with_home (hg : g.Sound) {d : Destination} (hd : ∀ name, d ≠ .outlet name)
    (hplaced : ∀ p, d = .file ⟨p, 0⟩ → g.places p = true) :
    ({ g with homes := g.homes ++ [d] }).Sound := by
  have hbound : ∀ k name, ({ g with homes := g.homes ++ [d] }).Bound k name ↔ g.Bound k name := by
    intro k name
    rw [bound_append]
    simp [hd name]
  refine ⟨hg.alone, ?_, ?_, ?_⟩
  · intro p hp
    rcases List.mem_append.mp hp with hp | hp
    · exact hg.placed p hp
    · exact hplaced p (List.mem_singleton.mp hp).symm
  · intro k name hk
    exact hg.known k name ((hbound k name).mp hk)
  · intro j k name face hj hface hlatest
    exact (hbound k name).mpr (hg.latest j k name face ((hbound j name).mp hj) hface hlatest)

theorem Sound.with_outlet (hg : g.Sound) (name : String) {face : Face}
    (hlatest : face.latest = some g.homes.length) :
    ({ g with
        homes := g.homes ++ [Destination.outlet name]
        faces := fun other => if name = other then some face else g.faces other }).Sound := by
  refine ⟨hg.alone, ?_, ?_, ?_⟩
  · intro p hp
    rcases List.mem_append.mp hp with hp | hp
    · exact hg.placed p hp
    · cases List.mem_singleton.mp hp
  · intro k other hk
    by_cases hother : name = other
    · exact ⟨_, if_pos hother⟩
    · rcases (bound_append g _ k other).mp hk with hk | ⟨-, heq⟩
      · obtain ⟨face, hface⟩ := hg.known k other hk
        exact ⟨face, (if_neg hother).trans hface⟩
      · exact absurd (Destination.outlet.inj heq) hother
  · intro j k other face' hj hface hlast
    refine (bound_append g _ k other).mpr ?_
    dsimp only at hface
    by_cases hother : name = other
    · rw [if_pos hother] at hface
      obtain rfl := Option.some.inj hface
      exact .inr ⟨Option.some.inj (hlast.symm.trans hlatest), by rw [hother]⟩
    · rw [if_neg hother] at hface
      rcases (bound_append g _ j other).mp hj with hj | ⟨-, heq⟩
      · exact .inl (hg.latest j k other face' hj hface hlast)
      · exact absurd (Destination.outlet.inj heq) hother

end Shape

namespace World

/-- What the making of a logger does in two programs of one shape: both keep one shape, and get the
same loggers; and outlets that were the same still are. -/
structure Parallel (w v w' v' : World) : Prop where
  shape : w'.shape = v'.shape
  sound : w'.shape.Sound
  members : ∃ new, w'.members = w.members ++ new ∧ v'.members = v.members ++ new
  outlets : ∀ name, w.outlet? name = v.outlet? name → w'.outlet? name = v'.outlet? name

def Agree {α : Type} (w v : World) (p q : World × Except Fault α) : Prop :=
  p.2 = q.2 ∧ Parallel w v p.1 q.1

section

variable {α : Type} {w v w' v' w'' v'' : World} {p q : World × Except Fault α}

theorem Parallel.refl (h : w.shape = v.shape) (hs : w.shape.Sound) : Parallel w v w v :=
  ⟨h, hs, ⟨[], by simp⟩, fun _ hname => hname⟩

theorem Parallel.trans (h : Parallel w v w' v') (k : Parallel w' v' w'' v'') :
    Parallel w v w'' v'' := by
  obtain ⟨new, hw, hv⟩ := h.members
  obtain ⟨more, hw', hv'⟩ := k.members
  refine ⟨k.shape, k.sound, ⟨new ++ more, ?_, ?_⟩, fun name hname => ?_⟩
  · rw [hw', hw, List.append_assoc]
  · rw [hv', hv, List.append_assoc]
  · exact k.outlets name (h.outlets name hname)

theorem Agree.trans (h : Parallel w v w' v') (k : Agree w' v' p q) : Agree w v p q :=
  ⟨k.1, h.trans k.2⟩

theorem Agree.cases (h : Agree w v p q) :
    (∃ w' v' f, p = (w', .error f) ∧ q = (v', .error f) ∧ Parallel w v w' v') ∨
      ∃ w' v' a, p = (w', .ok a) ∧ q = (v', .ok a) ∧ Parallel w v w' v' := by
  obtain ⟨w', r⟩ := p
  obtain ⟨v', r'⟩ := q
  obtain ⟨hresult, hparallel⟩ := h
  obtain rfl : r = r' := hresult
  cases r with
  | error f => exact .inl ⟨w', v', f, rfl, rfl, hparallel⟩
  | ok a => exact .inr ⟨w', v', a, rfl, rfl, hparallel⟩

theorem Parallel.looks (h : w.shape = v.shape) (hs : w.shape.Sound) (n n' : Nat) :
    Parallel w v { w with looks := n } { v with looks := n' } :=
  ⟨h, hs, ⟨[], by simp⟩, fun _ hname => hname⟩

theorem render_agree (h : w.shape = v.shape) (hs : w.shape.Sound) (r : Render α) :
    Agree w v (w.render r) (v.render r) :=
  ⟨rfl, Parallel.looks h hs _ _⟩

theorem length_of_shape (h : w.shape = v.shape) : w.members.length = v.members.length := by
  simpa [shape] using congrArg (fun g => g.homes.length) h

theorem homes_length (w : World) : w.shape.homes.length = w.members.length := by
  simp [shape]

theorem add_shape (w : World) (o : Options) (d : Destination) :
    (w.add o d).1.shape = { w.shape with homes := w.shape.homes ++ [d.home] } := by
  simp [add, shape, outlet?]

theorem outlet?_face (h : w.shape = v.shape) (name : String) :
    (w.outlet? name).map Outlet.face = (v.outlet? name).map Outlet.face :=
  congrFun (congrArg Shape.faces h) name

theorem modeOf_shape (h : w.shape = v.shape) (d : Destination) : w.modeOf d = v.modeOf d := by
  cases d with
  | outlet name =>
    have hmode : ∀ u : World, (u.outlet? name).map (·.mode) =
        ((u.outlet? name).map Outlet.face).map Face.mode := by
      intro u
      rw [Option.map_map]
      rfl
    rw [modeOf, modeOf, hmode, hmode, outlet?_face h]
  | file | syslog => rfl

theorem add_members (h : w.shape = v.shape) (o : Options) (d : Destination) :
    ∃ new, (w.add o d).1.members = w.members ++ new ∧ (v.add o d).1.members = v.members ++ new := by
  refine ⟨[⟨Logger.initial (w.members.length + 1) (w.modeOf d) o, d⟩], rfl, ?_⟩
  rw [length_of_shape h, modeOf_shape h]
  rfl

theorem addWith_eq (w : World) (r : Render Options) (d : Destination) :
    w.addWith r d =
      match (r.run.run 0).1 with
      | .error f => ({ w with looks := w.looks + (r.run.run 0).2 }, .error f)
      | .ok o =>
        ((add { w with looks := w.looks + (r.run.run 0).2 } o d).1, .ok w.members.length) := by
  unfold addWith render
  rcases r.run.run 0 with ⟨_ | o, n⟩ <;> rfl

theorem Parallel.addWith (h : Parallel w v w' v') (r : Render Options) {d : Destination}
    (hd : ∀ name, d.home ≠ .outlet name)
    (hplaced : ∀ p, d.home = .file ⟨p, 0⟩ → w'.shape.places p = true) :
    Agree w v (w'.addWith r d) (v'.addWith r d) := by
  rw [addWith_eq, addWith_eq, length_of_shape h.shape]
  rcases r.run.run 0 with ⟨_ | o, n⟩
  · exact ⟨rfl, h.trans (Parallel.looks h.shape h.sound _ _)⟩
  · have hlooks := h.trans (Parallel.looks h.shape h.sound (w'.looks + n) (v'.looks + n))
    refine ⟨rfl, hlooks.trans ⟨?_, ?_, ?_, ?_⟩⟩
    · rw [add_shape, add_shape]
      exact congrArg (fun g : Shape => { g with homes := g.homes ++ [d.home] }) h.shape
    · rw [add_shape]
      exact h.sound.with_home hd hplaced
    · exact add_members hlooks.shape o d
    · exact fun name hname => hname

theorem outlet?_provide (w : World) (o : Outlet) (name : String) :
    (w.provide o).outlet? name = (w.outlet? name).or (if o.name = name then some o else none) := by
  unfold provide
  split
  · rename_i hsome
    by_cases hname : o.name = name
    · subst name
      obtain ⟨old, hold⟩ := Option.isSome_iff_exists.mp hsome
      rw [hold]
      rfl
    · rw [if_neg hname, Option.or_none]
  · rw [outlet?, List.find?_append, ← outlet?]
    by_cases hname : o.name = name <;> simp [hname]

theorem provide_shape (w : World) (o : Outlet) :
    (w.provide o).shape = { w.shape with
      faces := fun name =>
        (w.shape.faces name).or (if o.name = name then some o.face else none) } := by
  have hfaces : (fun name => ((w.provide o).outlet? name).map Outlet.face) = fun name =>
      ((w.outlet? name).map Outlet.face).or (if o.name = name then some o.face else none) := by
    funext name
    rw [outlet?_provide]
    cases w.outlet? name <;> split <;> rfl
  have hrest : (w.provide o).shape = { w.shape with
      faces := fun name => ((w.provide o).outlet? name).map Outlet.face } := by
    unfold provide
    split <;> rfl
  rw [hrest, hfaces]
  rfl

theorem provide_members (w : World) (o : Outlet) : (w.provide o).members = w.members := by
  unfold provide
  split <;> rfl

theorem provide_sound (hs : w.shape.Sound) (o : Outlet) : (w.provide o).shape.Sound := by
  rw [provide_shape]
  refine hs.grown rfl rfl (fun _ hp => hp) fun k name hk => ?_
  obtain ⟨face, hface⟩ := hs.known k name hk
  dsimp only
  rw [hface]
  rfl

theorem provide_parallel (h : w.shape = v.shape) (hs : w.shape.Sound) (o : Outlet) :
    Parallel w v (w.provide o) (v.provide o) := by
  refine ⟨?_, provide_sound hs o, ⟨[], ?_, ?_⟩, fun name hname => ?_⟩
  · rw [provide_shape, provide_shape, h]
  · rw [provide_members, List.append_nil]
  · rw [provide_members, List.append_nil]
  · rw [outlet?_provide, outlet?_provide, hname]

theorem seat_shape {o : Outlet} {name : String} (ho : w.outlet? name = some o) (opts : Options) :
    ((w.add opts (.outlet name)).1.setOutlet { o with latest := some w.members.length }).shape =
      { w.shape with
        homes := w.shape.homes ++ [Destination.outlet name]
        faces := fun other =>
          if name = other then some ⟨o.writable, o.mode, some w.shape.homes.length⟩
          else w.shape.faces other } := by
  obtain rfl : o.name = name := outlet?_name ho
  have hadded : (w.add opts (.outlet o.name)).1.outlet? o.name = some o := ho
  rw [setOutlet_faces (o := { o with latest := some w.members.length }) hadded, add_shape,
    homes_length]
  rfl

theorem seat_parallel {o o' : Outlet} {name : String} (h : w.shape = v.shape) (hs : w.shape.Sound)
    (ho : w.outlet? name = some o) (ho' : v.outlet? name = some o')
    (hface : o.face = o'.face) (opts : Options) :
    Parallel w v
      ((w.add opts (.outlet name)).1.setOutlet { o with latest := some w.members.length })
      ((v.add opts (.outlet name)).1.setOutlet { o' with latest := some v.members.length }) := by
  refine ⟨?_, ?_, add_members h opts (.outlet name), fun other hother => ?_⟩
  · have hwritable : o.writable = o'.writable := congrArg Face.writable hface
    have hmode : o.mode = o'.mode := congrArg Face.mode hface
    rw [seat_shape ho, seat_shape ho', h, hwritable, hmode]
  · rw [seat_shape ho]
    exact hs.with_outlet name rfl
  · have hadded : (w.add opts (.outlet name)).1.outlet? other =
        (v.add opts (.outlet name)).1.outlet? other := hother
    rw [outlet?_setOutlet, outlet?_setOutlet, hadded, outlet?_name ho, outlet?_name ho']
    by_cases hname : name = other
    · subst other
      obtain rfl : o = o' := Option.some.inj (ho.symm.trans (hother.trans ho'))
      rw [length_of_shape h]
    · rw [if_neg hname, if_neg hname]

theorem onOutlet_agree (h : w.shape = v.shape) (hs : w.shape.Sound) (name : String) (a : Wanted) :
    Agree w v (w.onOutlet name a) (v.onOutlet name a) := by
  have hface := outlet?_face h name
  have hhost : v.host = w.host := (congrArg Shape.host h).symm
  unfold onOutlet
  cases hw : w.outlet? name with
  | none =>
    cases hv : v.outlet? name with
    | none => exact ⟨rfl, Parallel.refl h hs⟩
    | some o' =>
      rw [hw, hv] at hface
      cases hface
  | some o =>
    cases hv : v.outlet? name with
    | none =>
      rw [hw, hv] at hface
      cases hface
    | some o' =>
      rw [hw, hv] at hface
      have hsame : o.face = o'.face := Option.some.inj hface
      have hwritable : o'.writable = o.writable := (congrArg Face.writable hsame).symm
      dsimp only
      by_cases hcan : (!o.writable) = true
      · rw [if_pos hcan, if_pos (hwritable ▸ hcan)]
        exact ⟨rfl, Parallel.refl h hs⟩
      · rw [if_neg hcan, if_neg (hwritable ▸ hcan), addWith_eq, addWith_eq]
        have hoptions : a.options v.host = a.options w.host := by rw [hhost]
        rw [hoptions]
        rcases (a.options w.host).run.run 0 with ⟨_ | opts, n⟩
        · exact ⟨rfl, Parallel.looks h hs _ _⟩
        · have hlooks := Parallel.looks h hs (w.looks + n) (v.looks + n)
          refine ⟨congrArg Except.ok (length_of_shape h), hlooks.trans ?_⟩
          exact seat_parallel hlooks.shape hlooks.sound hw hv hsame opts

theorem files_parallel {fs fs' : Files} (h : w.shape = v.shape) (hs : w.shape.Sound)
    (hfiles : Files.Alike fs fs') (hgrown : ∀ p, (w.files.file? p).isSome → (fs.file? p).isSome) :
    Parallel w v { w with files := fs } { v with files := fs' } := by
  refine ⟨?_, hs.grown rfl rfl hgrown fun _ _ _ => rfl, ⟨[], by simp⟩, fun _ hname => hname⟩
  have hplaces : (fun p => (fs.file? p).isSome) = fun p => (fs'.file? p).isSome :=
    funext hfiles.places
  change ({ w.shape with
      directories := fs.directories, places := fun p => (fs.file? p).isSome } : Shape) =
    { v.shape with directories := fs'.directories, places := fun p => (fs'.file? p).isSome }
  rw [h, hfiles.directories, hplaces]

theorem files_alike (h : w.shape = v.shape) : Files.Alike w.files v.files :=
  ⟨congrArg Shape.directories h, fun p => congrFun (congrArg Shape.places h) p⟩

theorem put_grown (fs : Files) (p q : Place) (f : File) (h : (fs.file? q).isSome) :
    ((fs.put p f).file? q).isSome := by
  rw [Files.file?_put]
  split
  · rfl
  · exact h

theorem openFile_agree (h : w.shape = v.shape) (hs : w.shape.Sound) (path : Value) :
    Agree w v (w.openFile path) (v.openFile path) := by
  unfold openFile
  cases pathBytes path with
  | error f => exact ⟨rfl, Parallel.refl h hs⟩
  | ok bs =>
    dsimp only
    rcases (files_alike h).openForWriting bs with ⟨e, hw, hv⟩ | ⟨p, f, f', hw, hv⟩ <;> rw [hw, hv]
    · dsimp only
      rcases (render_agree h hs (openFault path e)).cases with
        ⟨w', v', f, hw, hv, hparallel⟩ | ⟨w', v', f, hw, hv, hparallel⟩ <;> rw [hw, hv]
      · exact ⟨rfl, hparallel⟩
      · exact ⟨rfl, hparallel⟩
    · exact ⟨rfl, files_parallel h hs ((files_alike h).put p f f') fun q => put_grown _ p q f⟩

theorem openFile_placed {path : Value} {f : Writer} (h : w.openFile path = (w', .ok f)) :
    w'.shape.places f.place = true := by
  unfold openFile at h
  cases hbytes : pathBytes path with
  | error e =>
    rw [hbytes] at h
    cases h
  | ok bs =>
    rw [hbytes] at h
    dsimp only at h
    have hself : Files.Alike w.files w.files := files_alike rfl
    rcases hself.openForWriting bs with ⟨e, hw, -⟩ | ⟨p, g, -, hw, -⟩ <;> rw [hw] at h <;>
      dsimp only at h
    · split at h <;> cases h
    · cases h
      simp [shape, Files.file?_put]

theorem onFile_agree (h : w.shape = v.shape) (hs : w.shape.Sound) (path : Value) (a : Wanted) :
    Agree w v (w.onFile path a) (v.onFile path a) := by
  unfold onFile
  rcases (openFile_agree h hs path).cases with
    ⟨w', v', f, hw, hv, hparallel⟩ | ⟨w', v', f, hw, hv, hparallel⟩ <;> rw [hw, hv]
  · exact ⟨rfl, hparallel⟩
  · have hhost : v'.host = w'.host := (congrArg Shape.host hparallel.shape).symm
    dsimp only
    rw [hhost]
    refine hparallel.addWith _ ?_ ?_
    · rintro name ⟨⟩
    · rintro p ⟨⟩
      exact openFile_placed hw

theorem onSyslog_eq (w : World) (address ident : Value) (a : Wanted) :
    w.onSyslog address ident a =
      let made := (SyslogWriter.connect w.network w.program w.process address ident).run.run 0
      let looks := w.looks + made.2
      match made.1 with
      | .error f => ({ w with looks }, .error f)
      | .ok (network, .error f) => ({ w with looks, network }, .error f)
      | .ok (network, .ok s) =>
        addWith { w with looks, network } (syslogOptions w.host a) (.syslog s) := by
  unfold onSyslog render
  rcases (SyslogWriter.connect w.network w.program w.process address ident).run.run 0 with
    ⟨_ | ⟨n, _ | s⟩, looks⟩ <;> rfl

theorem onSyslog_agree (h : w.shape = v.shape) (hs : w.shape.Sound) (address ident : Value)
    (a : Wanted) : Agree w v (w.onSyslog address ident a) (v.onSyslog address ident a) := by
  have hprogram : v.program = w.program := (congrArg Shape.program h).symm
  have hprocess : v.process = w.process := (congrArg Shape.process h).symm
  have hhost : v.host = w.host := (congrArg Shape.host h).symm
  have hnetwork : ∀ {l l' : Nat} {n n' : Network}, n.quiet = n'.quiet →
      Parallel w v { w with looks := l, network := n } { v with looks := l', network := n' } := by
    intro l l' n n' hn
    refine ⟨?_, hs.grown rfl rfl (fun _ hp => hp) fun _ _ _ => rfl, ⟨[], by simp⟩,
      fun _ hname => hname⟩
    change ({ w.shape with network := n.quiet } : Shape) = { v.shape with network := n'.quiet }
    rw [h, hn]
  have hboth : Render.Both Network.Alike
      ((SyslogWriter.connect w.network w.program w.process address ident).run.run 0).1
      ((SyslogWriter.connect v.network v.program v.process address ident).run.run 0).1 := by
    rw [hprogram, hprocess]
    exact (SyslogWriter.connect_alike (congrArg Shape.network h) _ _ address ident 0).2
  rw [onSyslog_eq, onSyslog_eq]
  rcases hboth.cases with ⟨f, hw, hv⟩ | ⟨⟨n, r⟩, ⟨n', r'⟩, hw, hv, hn, hr⟩ <;>
    simp only [hw, hv]
  · exact ⟨rfl, Parallel.looks h hs _ _⟩
  · obtain rfl : r = r' := hr
    cases r with
    | error f => exact ⟨rfl, hnetwork hn⟩
    | ok s =>
      have hoptions : syslogOptions v.host a = syslogOptions w.host a := by rw [hhost]
      dsimp only
      rw [hoptions]
      refine (hnetwork hn).addWith _ ?_ ?_
      · rintro name ⟨⟩
      · rintro p ⟨⟩

theorem onNamed_agree (h : w.shape = v.shape) (hs : w.shape.Sound) (name : Value) (a : Wanted) :
    Agree w v (w.onNamed name a) (v.onNamed name a) := by
  unfold onNamed
  dsimp only
  split
  · exact onFile_agree h hs _ _
  · split
    · exact ⟨rfl, Parallel.refl h hs⟩
    · split
      · exact onSyslog_agree h hs _ _ _
      · exact onFile_agree h hs _ _

theorem onSettings_agree (h : w.shape = v.shape) (hs : w.shape.Sound) (s : Settings) :
    Agree w v (w.onSettings s) (v.onSettings s) := by
  unfold onSettings
  split
  · exact onOutlet_agree h hs _ _
  · split
    · exact onSyslog_agree h hs _ _ _
    · exact onFile_agree h hs _ _

def announcement (w : World) (s : Settings) : List Notice :=
  if w.noticeLevel.rank ≤ NoticeLevel.debug.rank then
    [.report "lvlog.factory" .debug
      ("building logger for destination " ++ String.ofList (shownDestination s)) none]
  else []

theorem announceSettings_alone (alone : w.target = none) (s : Settings) :
    w.announceSettings s = { w with notices := w.notices ++ w.announcement s } := by
  obtain ⟨k, hk⟩ : ∃ k, patience = k + 1 := ⟨19999, rfl⟩
  unfold announceSettings announcement
  dsimp only
  rw [hk, announce_alone alone]
  split
  · rfl
  · rw [List.append_nil]

theorem announceSettings_notices (h : w.target = none) (s : Settings) :
    ∃ notices, w.announceSettings s = { w with notices } := ⟨_, announceSettings_alone h s⟩

theorem announceSettings_parallel (h : w.shape = v.shape) (hs : w.shape.Sound) (s : Settings) :
    Parallel w v (w.announceSettings s) (v.announceSettings s) := by
  have hv : v.shape.Sound := h ▸ hs
  obtain ⟨notices, hnotices⟩ := announceSettings_notices hs.alone s
  obtain ⟨notices', hnotices'⟩ := announceSettings_notices hv.alone s
  rw [hnotices, hnotices']
  exact ⟨h, hs, ⟨[], by simp⟩, fun _ hname => hname⟩

/-- In two programs of one shape, the same logger is made, or none for the same fault. -/
theorem construct_agree (h : w.shape = v.shape) (hs : w.shape.Sound) (source : Source)
    (a : Wanted) : Agree w v (w.construct source a) (v.construct source a) := by
  cases source with
  | outlet o =>
    have hprovided := provide_parallel h hs o
    exact .trans hprovided (onOutlet_agree hprovided.shape hprovided.sound o.name a)
  | file path => exact onFile_agree h hs path a
  | syslog address ident => exact onSyslog_agree h hs address ident a
  | named name => exact onNamed_agree h hs name a
  | settings given =>
    have henvironment : v.environment = w.environment := (congrArg Shape.environment h).symm
    simp only [construct, henvironment]
    rcases (render_agree h hs (Settings.load .standard ⟨given, w.environment⟩)).cases with
      ⟨w', v', f, hw, hv, hparallel⟩ | ⟨w', v', s, hw, hv, hparallel⟩ <;> rw [hw, hv]
    · exact ⟨rfl, hparallel⟩
    · have hnoted := announceSettings_parallel hparallel.shape hparallel.sound s
      exact .trans (hparallel.trans hnoted) (onSettings_agree hnoted.shape hnoted.sound s)

end

end World

end LeveledLog
