import LeveledLog.Proofs.Run
import LeveledLog.Proofs.Text.Encoding
import LeveledLog.Proofs.Text.Numeral
import LeveledLog.Proofs.Value.Looks
import LeveledLog.Syslog

/-!
Records on a stream. A stream does not keep what was sent apart, so each record ends with a newline,
the only one in it. Split at the newlines, the stream gives the records back, and since headers of
one sender are all of one length, the data too.
-/

namespace LeveledLog

namespace Text

def newline : UInt8 := 0x0a

/-- Characters that take one byte each, and none of them a newline. -/
def Plain (s : List Char) : Prop := ∀ c ∈ s, c.toNat < 0x80 ∧ c ≠ '\n'

section

variable {s t : List Char} {c : Char}

theorem plain_nil : Plain [] := by
  rintro c ⟨⟩

theorem plain_append : Plain (s ++ t) ↔ Plain s ∧ Plain t := List.forall_mem_append

theorem plain_cons : Plain (c :: s) ↔ (c.toNat < 0x80 ∧ c ≠ '\n') ∧ Plain s := List.forall_mem_cons

theorem Plain.length (h : Plain s) : (utf8 s).length = s.length := by
  induction s with
  | nil => rfl
  | cons c s ih =>
    obtain ⟨⟨hlow, -⟩, hs⟩ := plain_cons.mp h
    have hone : String.utf8EncodeChar c = [UInt8.ofNat c.toNat] :=
      if_pos (show c.toNat ≤ 0x7f by omega)
    have hcons : utf8 (c :: s) = [UInt8.ofNat c.toNat] ++ utf8 s := by
      rw [← hone]
      exact List.flatMap_cons
    rw [hcons, List.length_append, List.length_cons, ih hs]
    exact Nat.add_comm _ _

theorem Plain.no_newline (h : Plain s) : '\n' ∉ s := fun hmem => (h '\n' hmem).2 rfl

theorem natural_plain (n : Nat) : Plain (natural 10 n) := by
  intro c hc
  obtain ⟨d, hd, rfl⟩ := List.mem_map.mp hc
  have hdigits : ∀ d < 10, (digitChar d).toNat < 0x80 ∧ digitChar d ≠ '\n' := by decide
  exact hdigits d (digits_lt hd)

theorem paddedDecimal_plain (width n : Nat) : Plain (paddedDecimal width n) := by
  rw [paddedDecimal_natCast, plain_append]
  refine ⟨?_, natural_plain n⟩
  intro c hc
  rw [List.eq_of_mem_replicate hc]
  decide

end

theorem utf8_length_append (s t : List Char) :
    (utf8 (s ++ t)).length = (utf8 s).length + (utf8 t).length := by
  rw [utf8_append, List.length_append]

end Text

open Text (utf8 newline natural Plain plain_append plain_cons plain_nil)

/-! ### Headers of one sender -/

theorem Stamp.monthName_plain {t : Stamp} (h : t.Valid) :
    t.monthName.toList.length = 3 ∧ Plain t.monthName.toList := by
  have hnames : ∀ name ∈ monthNames, name.toList.length = 3 ∧
      (name.toList.all fun c => c.toNat < 0x80 ∧ c ≠ '\n') = true := by
    decide
  have hmonth : t.month - 1 < monthNames.length := by
    obtain ⟨-, -, hlow, hhigh, -⟩ := h
    change t.month - 1 < 12
    omega
  have hname : t.monthName ∈ monthNames := by
    rw [monthName, List.getD_eq_getElem?_getD, List.getElem?_eq_getElem hmonth, Option.getD_some]
    exact List.getElem_mem hmonth
  obtain ⟨hlength, hplain⟩ := hnames t.monthName hname
  exact ⟨hlength, fun c hc => of_decide_eq_true (List.all_eq_true.mp hplain c hc)⟩

namespace SyslogWriter

theorem recordPriority_spelled : natural 10 recordPriority = ['1', '1'] := by
  simp [natural, Text.digits, recordPriority, Text.digitChar]

theorem blankPadded_length {n : Nat} (h : n < 10 ^ 2) : (blankPadded n).length = 2 := by
  have hnatural : (natural 10 n).length ≤ 2 := by
    rw [natural, List.length_map]
    exact Text.digits_length_le (by decide) h
  rw [blankPadded, List.length_append, List.length_replicate]
  omega

theorem blankPadded_plain (n : Nat) : Plain (blankPadded n) := by
  refine plain_append.mpr ⟨?_, Text.natural_plain n⟩
  intro c hc
  rw [List.eq_of_mem_replicate hc]
  decide

theorem stamp_plain {t : Stamp} (h : t.Valid) : Plain (stamp t) := by
  have hpart (n : Nat) : Plain (Line.part 2 n) := Text.paddedDecimal_plain 2 n
  simp only [stamp, plain_append, plain_cons, hpart, blankPadded_plain, (Stamp.monthName_plain h).2]
  decide

/-- A stamp takes fifteen characters, on any day and at any time. -/
theorem stamp_length {t : Stamp} (h : t.Valid) : (stamp t).length = 15 := by
  have hpart {n : Nat} (hn : n ≤ 59) : (Line.part 2 n).length = 2 :=
    Text.paddedDecimal_length (by decide) (by omega)
  obtain ⟨-, -, -, -, -, hday, hhour, hminute, hsecond, -⟩ := id h
  simp only [stamp, List.length_append, List.length_cons, (Stamp.monthName_plain h).1,
    blankPadded_length (show t.day < 100 by omega), hpart (show t.hour ≤ 59 by omega),
    hpart hminute, hpart hsecond]

def headerLength (name : List Char) (process : Nat) : Nat :=
  4 + 15 + 1 + (utf8 name).length + 1 + (natural 10 process).length + 3

section

variable {clock : Stamp} {name : List Char} {process : Nat}

theorem header_length (h : clock.Valid) :
    (utf8 (header clock name process)).length = headerLength name process := by
  have hparts : header clock name process =
      ['<', '1', '1', '>'] ++ stamp clock ++ [' '] ++ name ++ ['['] ++ natural 10 process ++
        [']', ':', ' '] := by
    simp only [header, recordPriority_spelled, List.append_assoc, List.cons_append, List.nil_append]
  rw [hparts]
  simp only [Text.utf8_length_append, (stamp_plain h).length, stamp_length h,
    (Text.natural_plain process).length, headerLength]
  rfl

theorem header_no_newline (h : clock.Valid) (single : '\n' ∉ name) :
    newline ∉ utf8 (header clock name process) := by
  have hstamp := (stamp_plain h).no_newline
  have hprocess := (Text.natural_plain process).no_newline
  rw [newline, Text.newline_mem_utf8]
  simp [header, recordPriority_spelled, hstamp, hprocess, single]

end

end SyslogWriter

/-! ### Records of one writer -/

def NetworkEvent.streamed : NetworkEvent → List UInt8
  | sendAll bytes => bytes
  | _ => []

def Network.streamed (n : Network) : List UInt8 := n.events.flatMap NetworkEvent.streamed

theorem Network.terminated_append {header data : List UInt8} (single : newline ∉ header) :
    terminated (header ++ data) =
      header ++ (if data.getLast? = some newline then data.dropLast else data) ++ [newline] := by
  have hheader : header.getLast? ≠ some newline := fun h => single (List.mem_of_getLast? h)
  by_cases hdata : data.getLast? = some newline
  · obtain ⟨before, rfl⟩ := List.getLast?_eq_some_iff.mp hdata
    have hlast : (header ++ (before ++ [newline])).getLast? = some newline := by simp
    rw [if_pos hdata, List.dropLast_concat, List.append_assoc, terminated]
    exact if_pos hlast
  · have hlast : (header ++ data).getLast? ≠ some newline := by
      rw [List.getLast?_append]
      cases h : data.getLast? with
      | none => exact hheader
      | some b => exact fun hb => hdata (h.trans hb)
    rw [if_neg hdata, terminated]
    exact if_neg hlast

/-- A send on a stream that does not fail puts the record there, with its newline. -/
theorem Network.send_streamed {n : Network} {id : Nat} {record : List UInt8}
    (stream : n.kind id = .stream) (h : (n.send id record).2 = none) :
    (n.send id record).1.streamed = n.streamed ++ terminated record ∧
      (n.send id record).1.kind id = .stream := by
  unfold send at h ⊢
  split
  · rename_i hclosed
    rw [if_pos hclosed] at h
    cases h
  · rename_i hopen
    rw [if_neg hopen] at h
    split
    · rename_i failures hfailures
      rw [hfailures] at h
      cases h
    · rw [stream]
      refine ⟨?_, stream⟩
      simp only [streamed, Network.record, List.flatMap_append, List.flatMap_cons,
        NetworkEvent.streamed, List.flatMap_nil, List.append_nil]

namespace SyslogWriter

structure Entry where
  clock : Stamp
  data : List UInt8
  deriving Repr

namespace Entry

/-- There is no newline in the data, or only one at its end. -/
def Single (e : Entry) : Prop := newline ∉ e.data.dropLast

def content (e : Entry) : List UInt8 :=
  if e.data.getLast? = some newline then e.data.dropLast else e.data

theorem Single.content {e : Entry} (h : e.Single) : newline ∉ e.content := by
  unfold Entry.content
  split
  · exact h
  · rename_i hlast
    intro hmem
    have hdata := List.dropLast_concat_getLast (List.ne_nil_of_mem hmem)
    rw [← hdata, List.mem_append, List.mem_singleton] at hmem
    rcases hmem with hbefore | hb
    · exact h hbefore
    · exact hlast (hb ▸ List.getLast?_eq_getLast_of_ne_nil (List.ne_nil_of_mem hmem))

end Entry

/-- What a write leaves of the network and returns, if it succeeds. -/
def accepted? (w : SyslogWriter) (n : Network) (e : Entry) : Option (Network × Nat) :=
  match (w.write n e.clock e.data).outcome with
  | .ok (n, .ok length) => some (n, length)
  | _ => none

def writes (w : SyslogWriter) : Machine Network Entry where
  Enabled n e := (w.accepted? n e).isSome
  next n e := ((w.accepted? n e).map Prod.fst).getD n

instance (w : SyslogWriter) (n : Network) (e : Entry) : Decidable (w.writes.Enabled n e) :=
  inferInstanceAs (Decidable ((w.accepted? n e).isSome = true))

def returned (w : SyslogWriter) (n : Network) (e : Entry) : List Nat :=
  ((w.accepted? n e).map Prod.snd).toList

/-- Records as their reader finds them: a header of the known length, and then the data. -/
structure Reads (name : List Char) (process : Nat) (es : List Entry)
    (records : List (List UInt8)) : Prop where
  once : records.length = es.length
  stamps : ∀ e ∈ es, (stamp e.clock).length = 15
  headers : records.map (List.take (headerLength name process)) =
    es.map fun e => utf8 (header e.clock name process)
  contents : records.map (List.drop (headerLength name process)) = es.map Entry.content

section

variable {w : SyslogWriter} {n n' : Network} {name : List Char} {e : Entry} {es : List Entry}
  {length : Nat}

theorem accepted_streamed (ident : w.ident.plain.outcome = .ok name) (single : '\n' ∉ name)
    (stream : n.kind w.socket = .stream) (clock : e.clock.Valid)
    (h : w.accepted? n e = some (n', length)) :
    n'.streamed = n.streamed ++ (utf8 (header e.clock name w.process) ++ e.content ++ [newline]) ∧
      n'.kind w.socket = .stream ∧ length = e.data.length := by
  obtain ⟨k, hk⟩ : ∃ k, w.ident.plain.run.run 0 = (.ok name, k) := by
    rw [← ident]
    exact (Value.plain_steady w.ident).run 0
  rw [accepted?, Render.outcome, write, Render.bind_run, hk] at h
  dsimp only at h
  split at h
  · rename_i n₁ length₁ hwrite
    obtain ⟨rfl, rfl⟩ := Prod.mk.inj (Option.some.inj h)
    split at hwrite
    · rename_i hnone
      obtain ⟨rfl, hlength⟩ := Prod.mk.inj (Except.ok.inj hwrite)
      obtain ⟨hstreamed, hkind⟩ := Network.send_streamed stream hnone
      rw [Network.terminated_append (header_no_newline clock single)] at hstreamed
      exact ⟨hstreamed, hkind, (Except.ok.inj hlength).symm⟩
    · cases hwrite
  · cases h

theorem Reads.cons {records : List (List UInt8)} {process : Nat}
    (h : Reads name process es records) (clock : e.clock.Valid) :
    Reads name process (e :: es)
      ((utf8 (header e.clock name process) ++ e.content) :: records) where
  once := congrArg (· + 1) h.once
  stamps := List.forall_mem_cons.mpr ⟨stamp_length clock, h.stamps⟩
  headers := by
    have hlength : (utf8 (header e.clock name process)).length = headerLength name process :=
      header_length clock
    rw [List.map_cons, List.map_cons, h.headers, ← hlength, List.take_left]
  contents := by
    have hlength : (utf8 (header e.clock name process)).length = headerLength name process :=
      header_length clock
    rw [List.map_cons, List.map_cons, h.contents, ← hlength, List.drop_left]

end

def accentedWriter : SyslogWriter := ⟨.text "/dev/log", .text "café", 77, 0⟩

def oneStream : Network :=
  ⟨true, [], 0, [⟨.stream, true⟩], [.connect .stream "/dev/log"], [], false⟩

def threeEntries : List Entry :=
  [⟨⟨2024, 2, 9, 8, 5, 7, 0⟩, utf8 "ünder\n".toList⟩, ⟨⟨2024, 11, 30, 23, 59, 59, 999999⟩, []⟩,
    ⟨⟨2025, 1, 1, 0, 0, 0, 1⟩, [0xff, 0x00]⟩]

end SyslogWriter

end LeveledLog
