import LeveledLog.Proofs.Logger.OwnCalls
import LeveledLog.Proofs.Logger.Snapshots

/-!
Lines of a logger whose header options stay as they are, with the one for the system log among them.
No line has a tag or a timestamp, and each is what a call has to say, after the place of the call if
that is asked for. The worker tries to write one after another.
-/

namespace LeveledLog

theorem Flags.has_union_single (f : Flags) (o : HeaderOption) :
    (f.union (single o)).has o = true := by
  have hsingle : (single o).bits.testBit o.bit = true := Nat.testBit_two_pow_self
  rw [has, union, Nat.testBit_or, hsingle, Bool.or_true]

def Call.setsFlags : Call → Bool
  | .setFlags _ => true
  | _ => false

def Line.placed (f : Flags) (site : Option CallSite) : List Char :=
  site.elim [] fun s => Line.siteInfo s f

/-- A line without a tag and a timestamp: the place and the message with a newline at its end, or a
backtrace. -/
inductive Unadorned (f : Flags) (i : Invocation) : List CodePoint → Prop where
  | spoken {p tells r m} (speaks : i.call.speech? i.host.room = some (p, tells, r))
      (rendered : Render.outcome r = .ok m) (nonempty : m ≠ []) :
      Unadorned f i (Text.points (Line.placed f (Direct.siteOf f i.stack tells)) ++ Line.complete m)
  | output {depth priority v site s} (speaks : i.call = .output depth priority v)
      (located : (Direct.locate f i.stack depth).outcome = .ok site) (text : v.text? = some s)
      (nonempty : v.truth = true) :
      Unadorned f i (Text.points (Line.placed f site) ++ Line.complete (Text.points s.toList))
  | trace {k depth} (traces : i.call.Traces) :
      Unadorned f i (Direct.blockOf (i.stack.drop k) depth)

namespace Line

theorem assemble_syslog {f : Flags} (h : f.has .syslog = true) (tag : List Char)
    (message : List CodePoint) (site : Option CallSite) (now : Stamp) :
    assemble tag f message site now = Text.points (placed f site) ++ complete message := by
  have hfront : front tag f now = [] := if_pos h
  unfold assemble
  rw [hfront]
  cases site <;> rfl

theorem complete_ended (m : List CodePoint) : (complete m).getLast? = some (.char '\n') := by
  unfold complete
  split
  · assumption
  · exact List.getLast?_concat

end Line

theorem Backtrace.indented_last (ls : List (List Char)) (l : List Char) :
    indented (ls ++ [l]) = indented ls ++ ("\n    ".toList ++ l) := by
  unfold indented
  rw [List.flatMap_append, List.flatMap_singleton]

theorem Backtrace.block_ended (frames : Stack) : (block frames).getLast? = some '\n' := by
  unfold block
  rw [indented_last, ← List.append_assoc, ← List.append_assoc]
  exact List.getLast?_concat

section

variable {f : Flags} {now : Stamp} {i : Invocation} {l : List CodePoint}

theorem Direct.blockOf_ended (stack : Stack) (depth : Nat) :
    (blockOf stack depth).getLast? = some (.char '\n') := by
  rw [blockOf, Text.points, List.getLast?_map, Backtrace.block_ended]
  rfl

theorem Unadorned.ended (h : Unadorned f i l) : l.getLast? = some (.char '\n') := by
  cases h with
  | spoken => rw [List.getLast?_append, Line.complete_ended, Option.some_or]
  | output => rw [List.getLast?_append, Line.complete_ended, Option.some_or]
  | trace => exact Direct.blockOf_ended _ _

theorem Direct.output_holds {depth priority v : Value} (speaks : i.call = .output depth priority v)
    (h : l ∈ emitted f now i) : v.truth = true := by
  by_contra hv
  have hnone : emitted f now i = [] := by
    simp only [emitted, emission, speaks, hv]
    rfl
  rw [hnone] at h
  cases h

/-- What a call emits under the option for the system log. -/
theorem Direct.emitted_unadorned (syslog : f.has .syslog = true) (h : l ∈ emitted f now i) :
    Unadorned f i l := by
  cases emitted_worded h with
  | @spoken p tells r m speaks rendered nonempty =>
    have hformat : Line.format p.rank f m (siteOf f i.stack tells) now =
        Text.points (Line.placed f (siteOf f i.stack tells)) ++ Line.complete m := by
      rw [Line.format, if_neg (by simpa using nonempty), Line.assemble_syslog syslog]
    rw [hformat]
    exact .spoken speaks rendered nonempty
  | @output depth priority v site l speaks located rendered =>
    have nonempty : v.truth = true := output_holds speaks h
    have htag : Line.tagOf priority f = pure [] := by rw [Line.tagOf, syslog]; rfl
    rw [Line.ofValues, nonempty, htag] at rendered
    cases htext : v.text? with
    | none =>
      rw [htext] at rendered
      cases rendered
    | some s =>
      rw [htext] at rendered
      cases rendered
      rw [Line.assemble_syslog syslog]
      exact .output speaks located htext nonempty
  | trace traces => exact .trace traces

theorem Direct.settings_flags (h : i.call.setsFlags = false) (o : Options) :
    (settings o i).flags = o.flags := by
  unfold settings assigned
  cases hc : i.call with
  | setFlags v =>
    rw [hc] at h
    cases h
  | setPriority v =>
    simp only [Render.outcome_map]
    cases (Priority.ofValue v).outcome <;> rfl
  | _ => rfl

end

namespace Logger

def Event.setsFlags : Event → Bool
  | .start _ i => i.call.setsFlags
  | .ownCall i => i.call.setsFlags
  | _ => false

section

variable {now : Stamp} {s u : State} {e : Event} {i : Invocation}

theorem own_call_flags (h : i.call.setsFlags = false) (s : State) (now : Stamp) :
    (next now s (.ownCall i)).options.flags = s.options.flags := by
  have hcall : (ownCall s now i).1.options.flags = s.options.flags := by
    unfold ownCall
    dsimp only
    split_ifs
    · rfl
    · cases hmade : (Plan.make s.options now i).run.run 0 with
      | mk made looks =>
        cases made with
        | error f => rfl
        | ok made =>
          change made.1.flags = s.options.flags
          rw [(plan_of_made hmade).2, Direct.settings_flags h]
  exact hcall

theorem move_flags (hm : Move now s e u) (off : ∀ i, e ≠ .ownCall i)
    (keeps : ∀ t i, s.callers t = .composing i → i.call.setsFlags = false) :
    u.options.flags = s.options.flags := by
  cases hm with
  | compose composing made =>
    exact (plan_of_made made).2 ▸ Direct.settings_flags (keeps _ _ composing) s.options
  | ownCall busy => exact absurd rfl (off _)
  | _ => rfl

def written? (s : State) (e : Stamp × Event) : List (List CodePoint) :=
  match e.2, s.worker with
  | .worker _, .writing l => [l]
  | _, _ => []

def State.inWrite (s : State) : List (List CodePoint) :=
  match s.worker with
  | .writing l => [l]
  | _ => []

theorem mem_inWrite {l : List CodePoint} : l ∈ s.inWrite ↔ s.worker = .writing l := by
  unfold State.inWrite
  cases s.worker <;> simp [eq_comm]

theorem move_written (hm : Move now s e u) {before : List (List CodePoint)}
    (h : before ++ s.inWrite = s.attempts) :
    before ++ written? s (now, e) ++ u.inWrite = u.attempts := by
  cases hm with
  | reported w | take w | release w | lose w | written w | writeFailed w | writeEnded w | flushed w
  | flushFailed w | flushEnded w =>
    simpa [State.inWrite, written?, receive, report, giveUp, w] using h
  | write w =>
    simp only [State.inWrite, w, List.append_nil] at h
    simp [State.inWrite, written?, w, h]
  | _ => simpa [State.inWrite, written?] using h

end

section

variable {number : Nat} {mode : Mode} {o : Options} {es : List (Stamp × Event)} {t : Thread}
  {i : Invocation}

theorem started_mem (h : i ∈ started t es) : ∃ n, (n, Event.start t i) ∈ es := by
  obtain ⟨⟨n, e⟩, he, hi⟩ := List.mem_flatMap.mp h
  cases e with
  | start q j =>
    by_cases hq : q = t
    · obtain rfl : i = j := by simpa [begun, hq] using hi
      exact ⟨n, hq ▸ he⟩
    · simp [begun, hq] at hi
  | _ => cases hi

theorem latest_mem (h : latest t es = some i) : ∃ n, (n, Event.start t i) ∈ es :=
  started_mem (List.mem_of_getLast? h)

theorem run_flags (h : machine.Valid (initial number mode o) es)
    (keeps : ∀ e ∈ es, e.2.setsFlags = false) :
    (machine.after (initial number mode o) es).options.flags = o.flags := by
  induction es, h using Machine.run_induction with
  | nil => rfl
  | snoc es e hes he ih =>
    have hbefore : ∀ e ∈ es, e.2.setsFlags = false := fun e' he' => keeps e' (by simp [he'])
    have hlast : e.2.setsFlags = false := keeps e (by simp)
    rw [Machine.after_append, ← ih hbefore]
    by_cases hown : ∃ i, e.2 = .ownCall i
    · obtain ⟨i, hi⟩ := hown
      rw [hi] at hlast
      have hnext : machine.next (machine.after (initial number mode o) es) e =
          next e.1 (machine.after (initial number mode o) es) (.ownCall i) := by rw [← hi]; rfl
      exact (congrArg (·.options.flags) hnext).trans (own_call_flags hlast _ _)
    · refine move_flags (machine_move he) (fun i hi => hown ⟨i, hi⟩) fun t i composing => ?_
      rcases run_serves hes t with idle | ⟨j, hj, hserves⟩
      · rw [composing] at idle
        cases idle
      · rw [composing] at hserves
        obtain rfl : i = j := hserves
        obtain ⟨n, hstart⟩ := latest_mem hj
        exact hbefore _ hstart

theorem run_written (h : machine.Valid (initial number mode o) es) :
    machine.history written? (initial number mode o) es ++
      (machine.after (initial number mode o) es).inWrite =
        (machine.after (initial number mode o) es).attempts :=
  Machine.history_induction (I := fun s past => past ++ s.inWrite = s.attempts) rfl
    (fun _ _ _ he ih => move_written (machine_move he) ih) h

/-- Each line that is handed off is of a call that was begun before. -/
theorem handed_unadorned (h : machine.Valid (initial number mode o) es)
    (keeps : ∀ e ∈ es, e.2.setsFlags = false) (syslog : o.flags.has .syslog = true)
    {l : List CodePoint}
    (hl : l ∈ (machine.after (initial number mode o) es).handedOff.map Prod.snd) :
    ∃ t n i, (n, Event.start t i) ∈ es ∧ Unadorned o.flags i l := by
  obtain ⟨⟨t, l⟩, hmem, rfl⟩ := List.mem_map.mp hl
  have hthread : l ∈ ofThread t (machine.after (initial number mode o) es).handedOff := by
    refine List.mem_map.mpr ⟨(t, l), List.mem_filter.mpr ⟨hmem, ?_⟩, rfl⟩
    simp
  obtain ⟨k, hk⟩ := List.getElem?_of_mem hthread
  obtain ⟨before, now, rest, i, rfl, hcomposed⟩ := composed_lines h hk
  obtain ⟨hbefore, -⟩ := (machine.valid_append _ _ _).mp h
  have hflags := run_flags hbefore fun e he => keeps e (List.mem_append_left _ he)
  obtain ⟨n, hstart⟩ := latest_mem hcomposed.calling
  obtain ⟨j, -, hj⟩ := hcomposed.line
  rw [hflags] at hj
  exact ⟨t, n, i, List.mem_append_left _ hstart,
    Direct.emitted_unadorned syslog (List.mem_of_getElem? hj)⟩

theorem attempts_handedOff (h : machine.Valid (initial number mode o) es) :
    (machine.after (initial number mode o) es).attempts <+:
      (machine.after (initial number mode o) es).handedOff.map Prod.snd := by
  have hr := reachable_of_valid h
  obtain ⟨handled, hd⟩ := reachable_delivered hr
  exact ⟨_, (handedOff_accounted (reachable_sound hr) hd).symm⟩

theorem inWrite_ended (h : machine.Valid (initial number mode o) es)
    (keeps : ∀ e ∈ es, e.2.setsFlags = false) (syslog : o.flags.has .syslog = true)
    {l : List CodePoint}
    (hl : l ∈ (machine.after (initial number mode o) es).inWrite) :
    l.getLast? = some (.char '\n') := by
  have hattempt : l ∈ (machine.after (initial number mode o) es).attempts := by
    rw [← run_written h]
    exact List.mem_append_right _ hl
  obtain ⟨t, n, i, -, hunadorned⟩ :=
    handed_unadorned h keeps syslog ((attempts_handedOff h).subset hattempt)
  exact hunadorned.ended

end

end Logger

end LeveledLog
