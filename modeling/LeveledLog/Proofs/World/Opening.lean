import LeveledLog.Proofs.World.Isolation
import LeveledLog.Proofs.World.Routes

/-!
What the making of a logger does to the files. The file is opened first, and opening erases it or
creates it; only then are the priority and the header options looked at. So a logger that is refused
for one of these has cost the file that it was to write to, and no other file. A path that cannot be
opened costs nothing, and neither do settings, which are checked before.
-/

namespace LeveledLog

namespace Files

/-- The file at a place has been opened for writing, and nothing else has happened. -/
structure Erased (fs fs' : Files) (p : Place) : Prop where
  directories : fs'.directories = fs.directories
  others : ∀ q, q ≠ p → fs'.file? q = fs.file? q
  /-- A file that was there keeps its mode. -/
  target : fs'.file? p = some ⟨[], ((fs.file? p).map File.mode).getD privateMode⟩

def Preserved (fs fs' : Files) : Prop :=
  ∀ p, (fs'.file? p).map File.content = (fs.file? p).map File.content

section

variable {fs fs' : Files} {path : List UInt8} {f : Writer} {p : Place}

theorem put_erased (fs : Files) (p : Place) :
    Erased fs (fs.put p ⟨[], ((fs.file? p).map File.mode).getD privateMode⟩) p := by
  refine ⟨put_directories fs p _, ?_, ?_⟩
  · intro q hq
    rw [file?_put, if_neg hq]
  · rw [file?_put, if_pos rfl]

theorem file?_of_node {g : File} (h : fs.node p = .file g) : fs.file? p = some g := by
  unfold node at h
  split at h
  · cases h
  · split at h
    · cases h
      assumption
    · cases h

theorem file?_of_nothing (h : fs.node p = .nothing) : fs.file? p = none := by
  unfold node at h
  split at h
  · cases h
  · split at h
    · cases h
    · assumption

theorem openForWriting_erased (h : fs.openForWriting path = .ok (fs', f)) :
    ∃ p, f = ⟨p, 0⟩ ∧ Erased fs fs' p := by
  unfold openForWriting at h
  split at h
  · cases h
  · cases h
  · rename_i p slashed _
    have hput := put_erased fs p
    split_ifs at h
    split at h
    · cases h
    · rename_i g hnode
      rw [file?_of_node hnode] at hput
      cases h
      exact ⟨p, rfl, hput⟩
    · rename_i hnode
      rw [file?_of_nothing hnode] at hput
      cases h
      exact ⟨p, rfl, hput⟩

theorem Erased.preserved_iff (h : Erased fs fs' p) :
    Preserved fs fs' ↔ ∃ g, fs.file? p = some g ∧ g.content = [] := by
  constructor
  · intro hsame
    have htarget := hsame p
    rw [h.target, eq_comm, Option.map_some, Option.map_eq_some_iff] at htarget
    exact htarget
  · rintro ⟨g, hg, hempty⟩ q
    by_cases hq : q = p
    · subst hq
      rw [h.target, hg, Option.map_some, Option.map_some]
      exact congrArg some hempty.symm
    · rw [h.others q hq]

end

end Files

namespace World

open Files Route

def OpensAt (fs : Files) (path : Value) (p : Place) : Prop :=
  ∃ bs fs', pathBytes path = .ok bs ∧ fs.openForWriting bs = .ok (fs', ⟨p, 0⟩)

structure FilesAfter (fs : Files) (host : Host) (path : Value) (a : Wanted) (fs' : Files)
    (result : Except Fault Nat) : Prop where
  made : (∃ m, result = .ok m) ↔ (∃ p, OpensAt fs path p) ∧ a.Acceptable host
  unopened : (∀ p, ¬OpensAt fs path p) → fs' = fs
  opened : ∀ p, OpensAt fs path p → Erased fs fs' p
  /-- So a failure leaves the files alone if there is nothing to open, or nothing to erase. -/
  preserved : Preserved fs fs' ↔
    ∀ p, OpensAt fs path p → ∃ g, fs.file? p = some g ∧ g.content = []

section

variable {w v : World} {fs : Files} {source : Source} {path : Value} {a r : Wanted} {p q : Place}

theorem OpensAt.unique (hp : OpensAt fs path p) (hq : OpensAt fs path q) : p = q := by
  obtain ⟨bs, fs', hbytes, hopen⟩ := hp
  obtain ⟨bs', fs'', hbytes', hopen'⟩ := hq
  rw [hbytes] at hbytes'
  cases hbytes'
  rw [hopen] at hopen'
  cases hopen'
  rfl

theorem openFile_cases (w : World) (path : Value) :
    (∃ p files, OpensAt w.files path p ∧ Erased w.files files p ∧
      w.openFile path = ({ w with files }, .ok ⟨p, 0⟩)) ∨
    (∀ p, ¬OpensAt w.files path p) ∧ ∃ looks f, w.openFile path = ({ w with looks }, .error f) := by
  unfold openFile OpensAt
  cases hbytes : pathBytes path with
  | error f =>
    refine .inr ⟨?_, w.looks, f, rfl⟩
    rintro p ⟨bs, fs', ⟨⟩, -⟩
  | ok bs =>
    cases hopen : w.files.openForWriting bs with
    | error e =>
      refine .inr ⟨?_, ?_⟩
      · rintro p ⟨bs', fs', hbs, hok⟩
        cases hbs
        rw [hopen] at hok
        cases hok
      · obtain ⟨looks, hfault⟩ := render_eq w (openFault path e)
        dsimp only
        rw [hopen]
        dsimp only
        rw [hfault]
        cases (openFault path e).outcome with
        | ok f => exact ⟨looks, f, rfl⟩
        | error f => exact ⟨looks, f, rfl⟩
    | ok opened =>
      obtain ⟨files, f⟩ := opened
      obtain ⟨p, rfl, herased⟩ := openForWriting_erased hopen
      refine .inl ⟨p, files, ⟨bs, files, rfl, hopen⟩, herased, ?_⟩
      dsimp only
      rw [hopen]

theorem onFile_cases (w : World) (path : Value) (a : Wanted) :
    (∃ p files, OpensAt w.files path p ∧ Erased w.files files p ∧
      w.onFile path a = { w with files }.addWith (a.options w.host) (.file ⟨p, 0⟩)) ∨
    (∀ p, ¬OpensAt w.files path p) ∧
      ∃ looks f, w.onFile path a = ({ w with looks }, .error f) := by
  unfold onFile
  rcases openFile_cases w path with ⟨p, files, hopens, herased, hopen⟩ | ⟨hclosed, looks, f, hopen⟩
  · rw [hopen]
    exact .inl ⟨p, files, hopens, herased, rfl⟩
  · rw [hopen]
    exact .inr ⟨hclosed, looks, f, rfl⟩

theorem addWith_files (w : World) (a : Wanted) (d : Destination) :
    (w.addWith (a.options w.host) d).1.files = w.files ∧
      ((∃ m, (w.addWith (a.options w.host) d).2 = .ok m) ↔ a.Acceptable w.host) := by
  rcases a.options_cases w.host with ⟨o, ho, -, hacceptable⟩ | ⟨hfails, hnot⟩
  · rw [ho, addWith_pure]
    exact ⟨rfl, iff_of_true ⟨_, rfl⟩ hacceptable⟩
  · obtain ⟨looks, f, hfailed⟩ := addWith_fails hfails w d
    rw [hfailed]
    refine ⟨rfl, iff_of_false ?_ hnot⟩
    rintro ⟨m, ⟨⟩⟩

theorem onFile_files (w : World) (path : Value) (a : Wanted) :
    FilesAfter w.files w.host path a (w.onFile path a).1.files (w.onFile path a).2 := by
  rcases onFile_cases w path a with ⟨p, files, hopens, herased, hmade⟩ |
    ⟨hclosed, looks, f, hfailed⟩
  · obtain ⟨hfiles, hresult⟩ := addWith_files { w with files } a (.file ⟨p, 0⟩)
    rw [hmade, hfiles]
    refine ⟨?_, ?_, ?_, ?_⟩
    · rw [hresult]
      exact (and_iff_right ⟨p, hopens⟩).symm
    · intro hclosed
      exact absurd hopens (hclosed p)
    · intro q hq
      rwa [← hopens.unique hq]
    · rw [herased.preserved_iff]
      constructor
      · intro hempty q hq
        rwa [← hopens.unique hq]
      · intro hempty
        exact hempty p hopens
  · rw [hfailed]
    refine ⟨iff_of_false ?_ ?_, fun _ => rfl, ?_, iff_of_true (fun _ => rfl) ?_⟩
    · rintro ⟨m, ⟨⟩⟩
    · rintro ⟨⟨p, hp⟩, -⟩
      exact hclosed p hp
    · intro p hp
      exact absurd hp (hclosed p)
    · intro p hp
      exact absurd hp (hclosed p)

theorem settings_acceptable (h : Host) (s : Settings) : (wantedOf s).Acceptable h :=
  ⟨⟨s.priority, s.priority.stands_self⟩, s.flags, rfl⟩

/-- Making a logger on a file erases the file as soon as it can be opened, whatever else is asked
for. Only from settings does a failure always leave the files alone. -/
theorem erased_once_opened (alone : w.target = none)
    (h : Reads w.environment source a (.file path) r) :
    FilesAfter w.files w.host path r (w.construct source a).1.files (w.construct source a).2 ∧
      ∀ given f, source = .settings given → (w.construct source a).2 = .error f →
        (w.construct source a).1.files = w.files := by
  obtain ⟨v, hprepared, hmade⟩ := construct_routed alone h
  have hafter := onFile_files v path r
  rw [hprepared.files, hprepared.host] at hafter
  rw [hmade]
  refine ⟨hafter, ?_⟩
  rintro given f rfl hfailed
  apply hafter.unopened
  intro p hp
  have hacceptable : r.Acceptable w.host := by
    cases h with
    | settings => exact settings_acceptable _ _
  obtain ⟨m, hm⟩ := hafter.made.mpr ⟨⟨p, hp⟩, hacceptable⟩
  rw [onRoute, hm] at hfailed
  cases hfailed

end

def oldLog : Place := [Text.utf8 "log".toList]

def keptLog : World :=
  { bareProgram with files := Files.empty.addFile (Text.utf8 "log".toList) "old".toList }

def unranked : Wanted := ⟨.int 7, .text "", .flags .standard⟩

theorem unranked_erases_named :
    let made := keptLog.construct (.named (.text "log")) unranked
    keptLog.target = none ∧
      Reads keptLog.environment (.named (.text "log")) unranked (.file (.text "log")) unranked ∧
      keptLog.files.file? oldLog = some ⟨Text.utf8 "old".toList, ordinaryMode⟩ ∧
      made.1.files.file? oldLog = some ⟨[], ordinaryMode⟩ ∧
      FilesAfter keptLog.files .usual (.text "log") unranked made.1.files made.2 := by
  have hreads :
      Reads keptLog.environment (.named (.text "log")) unranked (.file (.text "log")) unranked :=
    .namedFile (s := "log") unranked rfl (by decide)
  exact ⟨rfl, hreads, by decide, by decide +kernel, (erased_once_opened rfl hreads).1⟩

/-- A failure does not leave the files alone. -/
theorem unranked_not_preserved :
    let made := keptLog.construct (.file (.text "log")) unranked
    (∃ f, made.2 = .error f) ∧ ¬Preserved keptLog.files made.1.files := by
  intro made
  have hrefused : made.2.toOption = none := by decide +kernel
  constructor
  · cases hmade : made.2 with
    | error f => exact ⟨f, rfl⟩
    | ok m =>
      rw [hmade] at hrefused
      cases hrefused
  · intro hsame
    have hold := hsame oldLog
    revert hold
    decide +kernel

end World

end LeveledLog
