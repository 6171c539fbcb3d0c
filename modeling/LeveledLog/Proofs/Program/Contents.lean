import LeveledLog.Proofs.Program.Intake

/-!
What the file of a logger holds, if nobody else writes there. Opening has erased it, each write goes
after the one before, and the path keeps leading to the file, since directories stay.
-/

namespace LeveledLog

namespace Files

section

variable {fs fs' opened : Files} {here q : Place} {path : List UInt8} {p : Place} {g : File}

theorem overwrite_end (content bytes : List UInt8) :
    overwrite content content.length bytes = content ++ bytes := by
  unfold overwrite
  rw [List.take_length, Nat.sub_self, List.drop_eq_nil_of_le (Nat.le_add_right _ _),
    List.append_nil]
  simp

theorem enter_kept (h : fs'.directories = fs.directories) {names : List Name}
    (hq : fs.enter here names = .ok q) : fs'.enter here names = .ok q := by
  have hdirectory : ∀ r, fs'.hasDirectory r = fs.hasDirectory r := by
    intro r
    rw [hasDirectory, h]
    rfl
  induction names generalizing here with
  | nil => exact hq
  | cons n rest ih =>
    rw [enter] at hq ⊢
    split_ifs at hq ⊢ with hhere hup hlong
    · exact ih hq
    · exact ih hq
    · by_cases hdir : fs.hasDirectory (here ++ [n]) = true
      · have hnode : fs.node (here ++ [n]) = .directory := if_pos hdir
        have hnode' : fs'.node (here ++ [n]) = .directory := if_pos ((hdirectory _).trans hdir)
        rw [hnode] at hq
        rw [hnode']
        exact ih hq
      · rw [node, if_neg hdir] at hq
        cases hfile : fs.file? (here ++ [n]) <;> rw [hfile] at hq <;> cases hq

theorem resolve_kept (h : fs'.directories = fs.directories) {target : Target}
    (htarget : fs.resolve path = .ok target) : fs'.resolve path = .ok target := by
  unfold resolve at htarget ⊢
  generalize (if path.head? = some slash then root else []) = here at htarget ⊢
  split_ifs at htarget ⊢
  cases hlast : splitLast path with
  | none =>
    rw [hlast] at htarget
    exact htarget
  | some parts =>
    obtain ⟨before, last, slashed⟩ := parts
    rw [hlast] at htarget
    dsimp only at htarget ⊢
    cases hentered : fs.enter here before with
    | error e =>
      rw [hentered] at htarget
      cases htarget
    | ok there =>
      rw [hentered] at htarget
      rw [enter_kept h hentered]
      exact htarget

theorem read_opened (hopen : fs.openForWriting path = .ok (opened, ⟨p, 0⟩))
    (h : fs'.directories = fs.directories) (hg : fs'.file? p = some g) : fs'.read path = .ok g := by
  unfold openForWriting at hopen
  split at hopen
  · cases hopen
  · cases hopen
  · rename_i r slashed hresolved
    split_ifs at hopen with hslash hlong
    have hplain : fs.hasDirectory r = false := by
      by_contra hdir
      have hnode : fs.node r = .directory := if_pos (by simpa using hdir)
      rw [hnode] at hopen
      cases hopen
    obtain rfl : r = p := by
      split at hopen
      · cases hopen
      · cases hopen
        rfl
      · cases hopen
        rfl
    have hnode : fs'.node r = .file g := by
      have hsame : fs'.hasDirectory r = false := by
        rw [hasDirectory, h]
        exact hplain
      rw [node, hsame, hg]
      rfl
    rw [read, resolve_kept h hresolved]
    dsimp only
    rw [if_neg hlong, hnode]
    exact if_neg hslash

end

end Files

namespace World

open Files Route

section

variable {w v : World} {m : Nat} {x : Member} {p : Place} {content : List UInt8}

theorem addWith_kept (w : World) (options : Render Options) (d : Destination) :
    (w.addWith options d).1.files = w.files := by
  obtain ⟨looks, members, hadded⟩ := addWith_frame w options d
  rw [hadded]

theorem onOutlet_kept (w : World) (name : String) (a : Wanted) :
    (w.onOutlet name a).1.files = w.files := by
  rcases onOutlet_cases w name a with ⟨o, v, m, -, -, hadd, hmade⟩ | ⟨looks, f, hfailed⟩
  · have hadded := w.addWith_kept (a.options w.host) (.outlet name)
    rw [hadd] at hadded
    rw [hmade]
    exact hadded
  · rw [hfailed]

theorem onSyslog_kept (w : World) (address ident : Value) (a : Wanted) :
    (w.onSyslog address ident a).1.files = w.files := by
  rw [onSyslog_eq]
  dsimp only
  split
  · rfl
  · rfl
  · rw [addWith_kept]

/-- Making a logger leaves the directories alone, and each file that it does not open. -/
theorem construct_kept (alone : w.target = none) (source : Source) (a : Wanted) :
    (w.construct source a).1.files.directories = w.files.directories ∧
      ∀ p, (∀ path r, Reads w.environment source a (.file path) r → ¬OpensAt w.files path p) →
        (w.construct source a).1.files.file? p = w.files.file? p := by
  rcases construct_unrouted w source a with ⟨route, r, hreads⟩ | ⟨looks, f, hrefused⟩
  · obtain ⟨v, hprepared, hmade⟩ := construct_routed alone hreads
    have hsame : (v.onRoute r route).1.files = w.files →
        (w.construct source a).1.files.directories = w.files.directories ∧
          ∀ p, (∀ path r, Reads w.environment source a (.file path) r →
            ¬OpensAt w.files path p) →
              (w.construct source a).1.files.file? p = w.files.file? p := by
      intro hfiles
      rw [hmade, hfiles]
      exact ⟨rfl, fun _ _ => rfl⟩
    cases route with
    | outlet name => exact hsame ((onOutlet_kept v name r).trans hprepared.files)
    | syslog address ident =>
      exact hsame ((onSyslog_kept v address ident r).trans hprepared.files)
    | file path =>
      have hafter := onFile_files v path r
      rw [hprepared.files] at hafter
      rw [hmade, onRoute]
      by_cases hopens : ∃ q, OpensAt w.files path q
      · obtain ⟨q, hq⟩ := hopens
        have herased := hafter.opened q hq
        refine ⟨herased.directories, fun p hp => herased.others p ?_⟩
        rintro rfl
        exact hp path r hreads hq
      · have hfiles := hafter.unopened (not_exists.mp hopens)
        rw [hfiles]
        exact ⟨rfl, fun _ _ => rfl⟩
  · rw [hrefused]
    exact ⟨rfl, fun _ _ => rfl⟩

/-- A logger is on the file at a place, and what it writes next goes after what is there. -/
structure Appends (w : World) (m : Nat) (p : Place) (content : List UInt8) : Prop where
  member : ∃ x, w.members[m]? = some x ∧ x.destination = .file ⟨p, content.length⟩
  file : (w.files.file? p).map File.content = some content

theorem event_files (w : World) (k : Nat) (e : Logger.Event) :
    (w.event k e).files = w.files := by
  unfold event
  split <;> rfl

theorem Appends.event (h : w.Appends m p content) (k : Nat) (e : Logger.Event) :
    (w.event k e).Appends m p content := by
  obtain ⟨x, hx, hd⟩ := h.member
  refine ⟨?_, (event_files w k e).symm ▸ h.file⟩
  by_cases hk : m = k
  · subst hk
    exact ⟨_, event_self hx e, hd⟩
  · exact ⟨x, (event_other w e hk).trans hx, hd⟩

theorem flush_files (w : World) (m : Nat) : (w.flush m).1.files = w.files := by
  unfold flush
  split
  · split <;> rfl
  · rfl

theorem service_file?_other (hx : w.members[m]? = some x)
    (apart : x.destination.home ≠ .file ⟨p, 0⟩) :
    (w.service m x).1.files.file? p = w.files.file? p := by
  unfold service
  split
  · rfl
  · rfl
  · cases hd : x.destination with
    | outlet other =>
      simp only [write, hx, hd]
      split <;> rfl
    | file f =>
      have hplace : f.place ≠ p := by
        rintro rfl
        exact apart (by rw [hd]; rfl)
      simp only [write, hx, hd, setMember, Files.write]
      rw [file?_put, if_neg (Ne.symm hplace)]
    | syslog s =>
      obtain ⟨looks, network, h⟩ := write_syslog hx hd _
      rw [h]
  · rw [flush_files]
  · obtain ⟨looks, notices, h⟩ := reported_frame w x _
    rw [h]

/-- The file of a worker gets what the worker is to write, after what is there. -/
theorem Appends.service (h : w.Appends m p content) (hx : w.members[m]? = some x) :
    (w.service m x).1.Appends m p (content ++ x.state.inWrite.flatMap Text.encode) := by
  obtain ⟨y, hy, hd⟩ := h.member
  obtain rfl := Option.some.inj (hx.symm.trans hy)
  have hquiet : ∀ {u : World}, u.members = w.members → u.files = w.files →
      x.state.inWrite = [] → u.Appends m p (content ++ x.state.inWrite.flatMap Text.encode) := by
    intro u hmembers hfiles hnone
    rw [hnone, List.flatMap_nil, List.append_nil]
    exact ⟨⟨x, hmembers ▸ hx, hd⟩, hfiles ▸ h.file⟩
  unfold World.service
  cases hw : x.state.worker with
  | receiving | ended => exact hquiet rfl rfl (by rw [Logger.State.inWrite, hw])
  | flushing line =>
    exact hquiet (flush_members w m) (flush_files w m) (by rw [Logger.State.inWrite, hw])
  | reporting d =>
    obtain ⟨looks, notices, hreported⟩ := reported_frame w x d
    dsimp only
    rw [hreported]
    exact hquiet rfl rfl (by rw [Logger.State.inWrite, hw])
  | writing line =>
    obtain ⟨g, hg, hcontent⟩ := Option.map_eq_some_iff.mp h.file
    have hline : x.state.inWrite.flatMap Text.encode = Text.encode line := by
      rw [Logger.State.inWrite, hw]
      exact List.flatMap_singleton _ _
    rw [hline]
    simp only [write, hx, hd]
    refine ⟨⟨_, setMember_self hx, ?_⟩, ?_⟩
    · rw [List.length_append]
      rfl
    · simp only [setMember, Files.write, hg, Option.getD_some, file?_put, if_true, Option.map_some]
      rw [hcontent, overwrite_end]

end

end World

namespace Program

open World Route

section

variable {w : World} {e : Event} {m : Nat} {p : Place} {content : List UInt8} {es : List Event}

def Spares (p : Place) (w : World) : Event → Prop
  | .make source a =>
    ∀ path r, Reads w.environment source a (.file path) r → ¬OpensAt w.files path p
  | _ => True

theorem next_directories (hs : w.shape.Sound) (e : Event) :
    (next w e).files.directories = w.files.directories := by
  have hsame : (next w e).shape = w.shape →
      (next w e).files.directories = w.files.directories := congrArg Shape.directories
  cases e with
  | make source a => exact (construct_kept hs.alone source a).1
  | setClock | disturb | note => rfl
  | permit outlet n => exact hsame (grant_shape w outlet n)
  | remark outlet noted => exact hsame (remark_shape w outlet noted)
  | start | caller | collect | worker | ownCall => exact hsame (own_shape hs rfl)

theorem run_directories (hs : w.shape.Sound) (es : List Event) :
    (machine.after w es).files.directories = w.files.directories := by
  induction es generalizing w with
  | nil => rfl
  | cons e es ih => exact (ih (next_sound hs e)).trans (next_directories hs e)

theorem turn_appends (h : w.Appends m p content) {q : Nat × Logger.Event}
    (hp : part? w e = some q) (hworker : ∀ j, e ≠ .worker j) :
    (next w e).Appends m p content := by
  obtain ⟨looks, hturn⟩ := turn_event hp hworker
  have hevent := h.event q.1 q.2
  rw [hturn]
  exact ⟨hevent.member, hevent.file⟩

/-- At each event the file gets the line that its worker is to write, if there is one. -/
theorem next_appends (hs : w.shape.Sound) (sole : Sole w m) (spares : Spares p w e)
    (h : w.Appends m p content) :
    (next w e).Appends m p
      (content ++ ((tries m w e).map Try.line).flatMap Text.encode) := by
  have hquiet : tries m w e = [] → (next w e).Appends m p content →
      (next w e).Appends m p
        (content ++ ((tries m w e).map Try.line).flatMap Text.encode) := by
    intro hnone hsame
    rw [hnone, List.map_nil, List.flatMap_nil, List.append_nil]
    exact hsame
  have hkept : ∀ {u : World}, u.members = w.members → u.files = w.files →
      u.Appends m p content := by
    intro u hmembers hfiles
    exact ⟨hmembers ▸ h.member, hfiles ▸ h.file⟩
  cases e with
  | make source a =>
    refine hquiet rfl ⟨?_, ?_⟩
    · obtain ⟨x, hx, hd⟩ := h.member
      exact ⟨x, next_shared (e := .make source a) hs.alone rfl hx, hd⟩
    · rw [next, (construct_kept hs.alone source a).2 p spares]
      exact h.file
  | setClock | disturb | note => exact hquiet rfl (hkept rfl rfl)
  | permit outlet n =>
    refine hquiet rfl (hkept (grant_members w outlet n) ?_)
    rw [next, grant]
    split <;> rfl
  | remark outlet noted =>
    refine hquiet rfl (hkept (remark_members w outlet noted) ?_)
    rw [next, World.remark]
    split <;> rfl
  | start | caller | collect | ownCall => exact hquiet rfl (turn_appends h rfl (by rintro _ ⟨⟩))
  | worker k =>
    obtain ⟨x, hx, hd⟩ := h.member
    by_cases hk : k = m
    · subst hk
      rw [worker_lines hx, next, World.workerStep, hx]
      exact (h.service hx).event k _
    · refine hquiet (tries_other hk) ?_
      rw [next, World.workerStep]
      split
      · exact h
      · rename_i y hy
        have hapart : y.destination.home ≠ .file ⟨p, 0⟩ := by
          intro hy'
          refine hk (sole k x y hx hy ?_)
          rw [hd, hy']
          rfl
        obtain ⟨d, hmembers⟩ := service_member hy
        refine Appends.event ⟨⟨x, ?_, hd⟩, ?_⟩ k _
        · rw [hmembers, List.getElem?_set_ne hk]
          exact hx
        · rw [service_file?_other hy hapart]
          exact h.file

theorem run_appends (hs : w.shape.Sound) (h : machine.Valid w es)
    (sole : Sole (machine.after w es) m)
    (spares : ∀ before e rest, es = before ++ e :: rest → Spares p (machine.after w before) e)
    (hon : w.Appends m p content) :
    (machine.after w es).Appends m p
      (content ++ ((machine.history (tries m) w es).map Try.line).flatMap Text.encode) := by
  induction es generalizing w content with
  | nil => exact (List.append_nil content).symm ▸ hon
  | cons e es ih =>
    have hnext := next_appends hs (sole_before hs h sole) (spares [] e es rfl) hon
    have hrest := ih (next_sound hs e) h.2 sole
      (fun before e' rest hes => spares (e :: before) e' rest (by rw [hes]; rfl)) hnext
    rw [Machine.history, List.map_append, List.flatMap_append, ← List.append_assoc]
    exact hrest

end

end Program

end LeveledLog
