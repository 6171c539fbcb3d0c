import LeveledLog.Proofs.Logger.Direct
import LeveledLog.Proofs.World.Shape

/-!
What the turns of loggers change in a program. No turn changes where loggers can be made and what
they would find there, however deep turns are nested in other turns.
-/

namespace LeveledLog

theorem Outlet.write_face (o : Outlet) (line : List CodePoint) :
    (o.write line).1.name = o.name ∧ (o.write line).1.face = o.face := by
  unfold Outlet.write
  split <;> exact ⟨rfl, rfl⟩

theorem Outlet.flushOnce_face (o : Outlet) :
    o.flushOnce.1.name = o.name ∧ o.flushOnce.1.face = o.face := by
  unfold Outlet.flushOnce
  split
  · exact ⟨rfl, rfl⟩
  · exact ⟨rfl, rfl⟩
  · dsimp only
    split <;> exact ⟨rfl, rfl⟩

theorem Network.send_quiet (n : Network) (id : Nat) (record : List UInt8) :
    (n.send id record).1.quiet = n.quiet := by
  unfold Network.send
  split
  · rfl
  · split
    · rfl
    · split <;> rfl

theorem SyslogWriter.write_quiet {s : SyslogWriter} {n n' : Network} {now : Stamp}
    {line : List UInt8} {r : Except Fault Nat} (h : (s.write n now line).outcome = .ok (n', r)) :
    n'.quiet = n.quiet := by
  let sent (ident : List Char) : Network × Option SystemError :=
    n.send s.socket (Text.utf8 (header now ident s.process) ++ line)
  have hwrite : s.write n now line = (do
      let ident ← s.ident.plain
      pure ((sent ident).1,
        (sent ident).2.elim (.ok line.length) fun e => .error (.system e))) := by
    unfold SyslogWriter.write
    congr 1
    funext ident
    dsimp only [sent]
    split <;> simp_all
  rw [hwrite] at h
  obtain ⟨ident, -, hsent⟩ := Render.of_outcome_ok h
  rw [(Prod.mk.inj hsent).1]
  exact n.send_quiet _ _

namespace World

section

variable {w : World} {m : Nat} {x : Member} {name : String}

theorem files_shape {fs : Files} (hdirectories : fs.directories = w.files.directories)
    (hplaces : ∀ p, (fs.file? p).isSome = (w.files.file? p).isSome) :
    ({ w with files := fs }).shape = w.shape := by
  have hfun : (fun p => (fs.file? p).isSome) = fun p => (w.files.file? p).isSome := funext hplaces
  simp only [shape, hdirectories, hfun]
  rfl

theorem network_shape {n : Network} (h : n.quiet = w.network.quiet) :
    ({ w with network := n }).shape = w.shape :=
  congrArg (fun network => { w.shape with network }) h

theorem file_write_shape (hs : w.shape.Sound) (hx : w.members[m]? = some x) {f : Writer}
    (hfile : x.destination = .file f) (bytes : List UInt8) :
    ({ w with files := (w.files.write f bytes).1 }).shape = w.shape := by
  have hplaced : (w.files.file? f.place).isSome := by
    refine hs.placed f.place (List.mem_of_getElem? (i := m) ?_)
    rw [home_of_member hx, hfile]
    rfl
  refine files_shape (Files.put_directories _ _ _) fun p => ?_
  simp only [Files.write, Files.file?_put]
  split
  · subst p
    exact hplaced.symm
  · rfl

theorem write_shape (hs : w.shape.Sound) (m : Nat) (line : List CodePoint) :
    (w.write m line).1.shape = w.shape := by
  unfold write
  split
  · rfl
  · rename_i x hx
    split
    · split
      · rfl
      · rename_i o ho
        obtain ⟨hname, hface⟩ := o.write_face line
        have hknown : w.outlet? (o.write line).1.name = some o := by
          rw [hname, outlet?_name ho]
          exact ho
        exact setOutlet_shape hknown hface
    · rename_i f hfile
      refine Eq.trans (setMember_shape hx ?_) (file_write_shape hs hx hfile _)
      rw [hfile]
      rfl
    · rename_i s hsyslog
      have hsent : ∀ {u : World} {n : Network} {r : Except Fault Nat},
          w.render (s.write w.network w.clock (Text.encode line)) = (u, .ok (n, r)) →
            ({ u with network := n }).shape = w.shape := by
        intro u n r hrender
        have hshape : u.shape = w.shape := congrArg (·.1.shape) hrender.symm
        have hnetwork : u.network = w.network := congrArg (·.1.network) hrender.symm
        have hquiet := SyslogWriter.write_quiet (congrArg Prod.snd hrender)
        rw [← hnetwork] at hquiet
        exact (network_shape hquiet).trans hshape
      split
      · rename_i u f hrender
        exact congrArg (·.1.shape) hrender.symm
      · exact hsent ‹_›
      · exact hsent ‹_›

theorem flush_shape (w : World) (m : Nat) : (w.flush m).1.shape = w.shape := by
  unfold flush
  split
  · split
    · rfl
    · rename_i o ho
      obtain ⟨hname, hface⟩ := o.flushOnce_face
      have hknown : w.outlet? o.flushOnce.1.name = some o := by
        rw [hname, outlet?_name ho]
        exact ho
      exact setOutlet_shape hknown hface
  · rfl

theorem begin_shape (w : World) (m : Nat) (t : Thread) (i : Invocation) :
    (w.begin m t i).shape = w.shape :=
  event_shape w m (.start t i)

theorem caller_turn_shape (w : World) (m : Nat) (t : Thread) :
    (w.callerTurn m t).shape = w.shape :=
  event_shape w m (.caller t)

theorem collect_shape (w : World) (m : Nat) (t : Thread) :
    (w.collect m t).1.shape = w.shape := by
  unfold collect
  split
  · rfl
  · exact event_shape w m (.collect t)

theorem own_call_shape (w : World) (m : Nat) (i : Invocation) :
    (w.ownCall m i).1.shape = w.shape := by
  unfold ownCall
  split
  · rfl
  · exact event_shape w m (.ownCall i)

theorem record_shape {o : Outlet} (ho : w.outlet? name = some o) (e : OutletEvent) :
    (w.setOutlet (o.record e)).shape = w.shape := by
  have hknown : w.outlet? (o.record e).name = some o := by
    rw [← outlet?_name ho] at ho
    exact ho
  exact setOutlet_shape hknown rfl

theorem report_looks (w : World) (x : Member) (d : Diagnostic) :
    ∃ looks, (w.reportMessage x d).1 = { w with looks } := by
  have hshown : ∃ looks, (w.showDestination x.destination).1 = { w with looks } := by
    unfold showDestination
    split
    · exact ⟨w.looks, rfl⟩
    · exact ⟨w.looks, rfl⟩
    · split
      all_goals
        rename_i hrender
        exact ⟨_, (congrArg Prod.fst hrender).symm⟩
  cases d <;> exact hshown

theorem report_shape (w : World) (x : Member) (d : Diagnostic) :
    (w.reportMessage x d).1.shape = w.shape := by
  obtain ⟨looks, hlooks⟩ := report_looks w x d
  rw [hlooks]
  rfl

theorem announce_alone {fuel : Nat} {busy : List Nat} (h : w.target = none) (t : Thread)
    (n : Notice) (s : String) : announce (fuel + 1) busy w t n s = w.note n := by
  rw [announce]
  split
  · rfl
  · rename_i m htarget
    change w.target = some m at htarget
    rw [h] at htarget
    cases htarget

structure KeepsShape (fuel : Nat) : Prop where
  settle : ∀ busy (w : World), w.shape.Sound → (World.settle fuel busy w).shape = w.shape
  worker : ∀ busy (w : World) m, w.shape.Sound → (workerTurn fuel busy w m).shape = w.shape
  announce : ∀ busy (w : World) t n s, w.shape.Sound →
    (World.announce fuel busy w t n s).shape = w.shape
  callAll : ∀ busy (w : World) t m cs r, w.shape.Sound →
    (World.callAll fuel busy w t m cs r).1.shape = w.shape

theorem KeepsShape.settle_succ {fuel : Nat} (h : KeepsShape fuel) (busy : List Nat)
    (hs : w.shape.Sound) : (World.settle (fuel + 1) busy w).shape = w.shape := by
  rw [World.settle]
  split
  · rfl
  · rename_i m t _
    have hturn := caller_turn_shape w m t
    exact (h.settle _ _ (hturn ▸ hs)).trans hturn
  · rename_i m _
    have hturn := h.worker busy w m hs
    exact (h.settle _ _ (hturn ▸ hs)).trans hturn

theorem KeepsShape.worker_succ {fuel : Nat} (h : KeepsShape fuel) (busy : List Nat) (m : Nat)
    (hs : w.shape.Sound) : (workerTurn (fuel + 1) busy w m).shape = w.shape := by
  rw [workerTurn]
  split
  · rfl
  · rename_i x hx
    split
    · exact event_shape w m _
    · rfl
    · rename_i line _
      have hwritten : ∀ u : World, u.shape = w.shape →
          ((u.write m line).1.event m (.worker (u.write m line).2)).shape = w.shape := by
        intro u hu
        exact (event_shape _ _ _).trans ((write_shape (hu ▸ hs) m line).trans hu)
      refine hwritten _ ?_
      split
      · rfl
      · rename_i o other _
        have hcalled := h.callAll (m :: busy) w x.state.own other reentrantCalls none hs
        dsimp only
        split
        · rename_i o' ho'
          exact (record_shape ho' _).trans hcalled
        · exact hcalled
    · exact (event_shape _ _ _).trans (flush_shape w m)
    · refine (event_shape _ _ _).trans ?_
      split
      · rename_i d _ _
        have hreport := report_shape w x d
        exact (h.announce _ _ _ _ _ (hreport ▸ hs)).trans hreport
      · rfl

theorem KeepsShape.callAll_succ {fuel : Nat} (h : KeepsShape fuel) (busy : List Nat) (t : Thread)
    (m : Nat) (cs : List Call) (r : Option Outcome) (hs : w.shape.Sound) :
    (World.callAll (fuel + 1) busy w t m cs r).1.shape = w.shape := by
  cases cs with
  | nil => simp only [World.callAll]
  | cons c rest =>
    rw [World.callAll]
    split
    · rfl
    · split
      · have hown := own_call_shape w m (w.bare c)
        exact (h.callAll _ _ _ _ _ _ (hown ▸ hs)).trans hown
      · have hbegin := begin_shape w m t (w.bare c)
        have hsettled := (h.settle busy (w.begin m t (w.bare c)) (hbegin ▸ hs)).trans hbegin
        have hcollected :=
          (collect_shape (World.settle fuel busy (w.begin m t (w.bare c))) m t).trans
          hsettled
        exact (h.callAll _ _ _ _ _ _ (hcollected ▸ hs)).trans hcollected

/-- Turns of any depth leave the shape of the program alone. -/
theorem turns_shape (fuel : Nat) : KeepsShape fuel := by
  induction fuel with
  | zero =>
    constructor
    · intro busy w hs
      rw [World.settle]
    · intro busy w m hs
      rw [workerTurn]
    · intro busy w t n s hs
      rw [World.announce]
    · intro busy w t m cs r hs
      rw [World.callAll]
  | succ fuel ih =>
    constructor
    · intro busy w hs
      exact ih.settle_succ busy hs
    · intro busy w m hs
      exact ih.worker_succ busy m hs
    · intro busy w t n s hs
      rw [announce_alone hs.alone]
      rfl
    · intro busy w t m cs r hs
      exact ih.callAll_succ busy t m cs r hs

end

end World

end LeveledLog
