import LeveledLog.Proofs.Logger.Loss
import LeveledLog.Proofs.Logger.Sync

/-!
What several threads write through one logger. The lines that are handed off are written once each,
whole and not during another write, up to one that ends the worker, and the writes are a merge of
the threads' own lines. That all lines are written is claimed only for a thread that has waited for
it.
-/

namespace LeveledLog.Logger

def ofThread {α : Type} (t : Thread) (l : List (Thread × α)) : List α :=
  (l.filter fun d => d.1 = t).map Prod.snd

def State.handedOff (s : State) : List (Thread × List CodePoint) :=
  s.channel.deposited.filterMap fun d => d.2.line?.map (d.1, ·)

def State.written (s : State) : List (Thread × List CodePoint) :=
  s.handedOff.take s.attempts.length

def Finished (p : Progress) : Prop := IsIdle p ∨ IsDone p

theorem map_snd_lines (l : List (Thread × Parcel)) :
    (l.filterMap fun d => d.2.line?.map (d.1, ·)).map Prod.snd =
      (l.map Prod.snd).filterMap Parcel.line? := by
  simp only [List.map_filterMap, List.filterMap_map]
  congr 1
  funext d
  cases h : d.2.line? <;> simp [h]

theorem handedOff_lines (s : State) :
    s.handedOff.map Prod.snd = (s.channel.deposited.map Prod.snd).filterMap Parcel.line? :=
  map_snd_lines s.channel.deposited

theorem ofThread_lines (l : List (Thread × Parcel)) (t : Thread) :
    ofThread t (l.filterMap fun d => d.2.line?.map (d.1, ·)) =
      (ofThread t l).filterMap Parcel.line? := by
  unfold ofThread
  induction l with
  | nil => rfl
  | cons d ds ih =>
    obtain ⟨q, x⟩ := d
    cases x <;> by_cases hq : q = t <;> simp_all [Parcel.line?, List.filterMap_cons]

theorem ofThread_handedOff (s : State) (t : Thread) :
    ofThread t s.handedOff = (s.channel.deposits t).filterMap Parcel.line? :=
  ofThread_lines s.channel.deposited t

theorem ofThread_mono {α : Type} {l m : List (Thread × α)} (h : l <+: m)
    (t : Thread) : ofThread t l <+: ofThread t m :=
  (h.filter _).map _

theorem handedOff_accounted {s : State} (hs : Sound s) {handled : List Parcel}
    (hd : Delivered s handled) :
    s.handedOff.map Prod.snd =
      s.attempts ++ (s.held ++ s.channel.slot.toList).filterMap Parcel.line? := by
  rw [handedOff_lines, hs.channel.conserved.order, hd.taken, List.append_assoc,
    List.filterMap_append, hd.lines]

theorem written_lines {s : State} (hs : Sound s) {handled : List Parcel}
    (hd : Delivered s handled) : s.written.map Prod.snd = s.attempts := by
  rw [State.written, List.map_take, handedOff_accounted hs hd, List.take_left]

theorem finished_pending {s : State} (h : Coupled s) {t : Thread}
    (hf : Finished (s.callers t)) : (s.channel.phase t).pending = [] := by
  by_cases ht : t = s.own
  · subst t
    exact Handoff.Phase.pending_of_not_sends h.worker.not_sends
  · have hfits := h.callers t ht
    have hidle : s.channel.phase t = .idle := by
      cases hp : s.callers t <;> rw [hp] at hfits hf <;> try exact hfits
      rcases hf with hf | hf <;> exact hf.elim
    rw [hidle]
    rfl

theorem finished_issued {s : State} (h : Coupled s) {t : Thread}
    (hf : Finished (s.callers t)) : s.issued t = ofThread t s.handedOff := by
  have hleft : (s.callers t).linesLeft = [] := by
    cases hp : s.callers t <;> rw [hp] at hf <;>
      first | rfl | (rcases hf with hf | hf <;> exact hf.elim)
  rw [State.issued, hleft, Handoff.State.offered, finished_pending h hf, List.append_nil,
    List.append_nil, ofThread_handedOff]

theorem handedOff_issued (s : State) (t : Thread) : ofThread t s.handedOff <+: s.issued t := by
  rw [ofThread_handedOff, State.issued, Handoff.State.offered, List.filterMap_append,
    List.append_assoc]
  exact List.prefix_append _ _

structure Merged (number : Nat) (mode : Mode) (o : Options) (es : List (Stamp × Event))
    (s : State) : Prop where
  /-- Each line that was handed off is passed to a write once, but for those that are still in the
  slot or with the worker. -/
  once : s.handedOff.map Prod.snd =
    s.attempts ++ (s.held ++ s.channel.slot.toList).filterMap Parcel.line?
  /-- A line that ended the worker is the next one, and the destination cannot be given it. -/
  lost : ∀ l, s.worker = .ended (some l) →
    mode.takes l = false ∧ s.attempts ++ [l] <+: s.handedOff.map Prod.snd
  /-- At most one write is going on, and it is the latest. -/
  alone : s.attempts.length = s.finished + s.writes ∧ s.writes ≤ 1
  merge : s.written.map Prod.snd = s.attempts
  order : ∀ t, ofThread t s.written <+: lines t (initial number mode o) es
  /-- Once all threads have finished and one of them has waited, nothing is left out. -/
  complete : ∀ before rest, es = before ++ rest →
    (∀ t, Finished ((machine.after (initial number mode o) before).callers t)) →
    ∀ u looks, IsIdle ((machine.after (initial number mode o) before).callers u) →
      s.callers u = .done (.returned (.bool true)) looks →
      ∀ t, lines t (initial number mode o) before <+: ofThread t s.written

theorem reachable_lost_next {s : State} (h : Reachable s) {l : List CodePoint}
    (hw : s.worker = .ended (some l)) :
    s.mode.takes l = false ∧ s.attempts ++ [l] <+: s.handedOff.map Prod.snd := by
  obtain ⟨handled, hd⟩ := reachable_delivered h
  refine ⟨reachable_lost h hw, ?_⟩
  rw [handedOff_accounted (reachable_sound h) hd, List.prefix_append_right_inj, State.held, hw]
  exact List.prefix_append [l] _

theorem attempts_merge_lines {number : Nat} {mode : Mode} {o : Options} {es : List (Stamp × Event)}
    (h : machine.Valid (initial number mode o) es) :
    Merged number mode o es (machine.after (initial number mode o) es) := by
  have hr := reachable_of_valid h
  have hs := reachable_sound hr
  obtain ⟨handled, hd⟩ := reachable_delivered hr
  have hall := handedOff_accounted hs hd
  refine ⟨hall, ?_, ⟨attempts_finished hr, ?_⟩, written_lines hs hd, ?_, ?_⟩
  · intro l hl
    have hnext := reachable_lost_next hr hl
    rwa [run_mode h] at hnext
  · unfold State.writes
    split <;> omega
  · intro t
    rw [← run_issued h t]
    exact (ofThread_mono (List.take_prefix _ _) t).trans (handedOff_issued _ t)
  · rintro before rest rfl finished u looks idle waited t
    obtain ⟨hbefore, hrest⟩ := (machine.valid_append _ _ _).mp h
    have hrb := reachable_of_valid hbefore
    rw [Machine.after_append] at waited hd ⊢
    set mid := machine.after (initial number mode o) before
    have hcover := run_waited hrb (isIdle_iff.mp idle) hrest waited hd
    have hgrown : mid.handedOff <+: (machine.after mid rest).handedOff :=
      (run_deposited hrb hrest).filterMap _
    have hlen : mid.handedOff.length ≤ (machine.after mid rest).attempts.length := by
      have hle := (hcover.filterMap Parcel.line?).length_le
      rwa [← handedOff_lines, hd.lines, List.length_map] at hle
    rw [← run_issued hbefore t, finished_issued (reachable_sound hrb).coupled (finished t)]
    refine ofThread_mono ?_ t
    exact List.prefix_take_iff.mpr ⟨hgrown, hlen⟩

def infoOnly : Options := ⟨.info, .empty, .none⟩

/-- Two threads log a line each, and the second one has to wait for its turn. -/
def talk : List (Stamp × Event) :=
  let logs (n : Nat) (text : String) : Event :=
    .start (.caller n) ⟨.leveled .info (.text text) [], [], [], .usual⟩
  let step (n k : Nat) : List Event := List.replicate k (.caller (.caller n))
  let work (k : Nat) : List Event := List.replicate k (.worker none)
  let events : List Event :=
    work 3 ++ [logs 0 "a", logs 1 "b"] ++ step 0 1 ++ step 1 1 ++ step 0 6 ++ step 1 2 ++ work 2 ++
      step 0 3 ++ step 1 4 ++ work 5 ++ step 1 3 ++ work 3 ++ step 0 1 ++ step 1 1 ++
      [.collect (.caller 0)]
  events.map (⟨2024, 5, 6, 7, 8, 9, 1234⟩, ·)

def farewell : List (Stamp × Event) :=
  let step (k : Nat) : List Event := List.replicate k (.caller (.caller 0))
  let work (k : Nat) : List Event := List.replicate k (.worker none)
  let events : List Event :=
    [.start (.caller 0) ⟨.sync, [], [], .usual⟩] ++ step 6 ++ work 2 ++ step 3 ++ work 1 ++ step 2
  events.map (⟨2024, 5, 6, 7, 8, 10, 0⟩, ·)

theorem talk_valid : machine.Valid (initial 1 .text infoOnly) talk := by decide +kernel

theorem talk_finished (t : Thread) :
    Finished ((machine.after (initial 1 .text infoOnly) talk).callers t) := by
  by_cases h0 : t = .caller 0
  · subst t
    exact .inl (by decide +kernel)
  · by_cases h1 : t = .caller 1
    · subst t
      exact .inr (by decide +kernel)
    · refine .inl (isIdle_iff.mpr (run_idle talk_valid ?_))
      intro e he hc
      have hall : ∀ e ∈ talk, e.2.caller? ∈ [none, some (.caller 0), some (.caller 1)] := by
        decide +kernel
      have hmem := hall e he
      simp [hc, h0, h1] at hmem

theorem talk_merges_lines :
    let s := machine.after (initial 1 .text infoOnly) (talk ++ farewell)
    s.attempts = [Text.points "<2>:a\n".toList, Text.points "<2>:b\n".toList] ∧
      Merged 1 .text infoOnly (talk ++ farewell) s ∧
      ∀ t, lines t (initial 1 .text infoOnly) talk <+: ofThread t s.written := by
  have hm : Merged 1 .text infoOnly (talk ++ farewell) _ := attempts_merge_lines (by decide +kernel)
  exact ⟨by decide +kernel, hm,
    hm.complete talk farewell rfl talk_finished (.caller 0) 0 (by decide +kernel) (by rfl)⟩

/-- A line can be handed off and never be passed to a write, whatever happens next. -/
theorem muted_unwritten :
    let s := machine.after (initial 1 .bytes unfiltered) muted
    machine.Valid (initial 1 .bytes unfiltered) muted ∧ s.handedOff ≠ [] ∧
      ∀ rest, machine.Valid s rest → (machine.after s rest).attempts = [] := by
  refine ⟨muted_valid, by decide +kernel, fun rest h => ?_⟩
  rw [(run_deserted h muted_ended).attempts]
  decide +kernel

end LeveledLog.Logger
