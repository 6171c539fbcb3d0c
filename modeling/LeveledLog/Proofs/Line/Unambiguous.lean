import LeveledLog.Line.OfValue
import LeveledLog.Proofs.Logger.Direct
import LeveledLog.Proofs.Text.Numeral

/-!
What a line tells about the entry that it was written for. Every field is of fixed width or ends at
a character that it does not hold, so equal lines were written for entries that agree in all that
the header options show. A message may look like any of the fields in front of it. A file is told
apart only if its name holds no closing parenthesis.
-/

namespace LeveledLog

structure Entry where
  rank : Int
  message : List CodePoint
  site : Option CallSite
  time : Stamp

namespace Line

/-- How an entry becomes a line: with a priority of the library, or with any integer and text. -/
inductive Written (f : Flags) (e : Entry) : List CodePoint → Prop where
  | leveled : Written f e (format e.rank f e.message e.site e.time)
  | values {p m : Value} {s : String} {l : List CodePoint} (rank : p.int? = some e.rank)
      (message : m.text? = some s) (points : e.message = Text.points s.toList)
      (rendered : (ofValues p f m e.site e.time).outcome = .ok l) : Written f e l

structure Legible (f : Flags) (e : Entry) : Prop where
  message : e.message ≠ []
  time : e.time.Valid
  file : wantsSite f = true → ∀ c ∈ e.site, ')' ∉ shownFile c.file f

structure SameHeader (f : Flags) (t u : Stamp) : Prop where
  date : f.has .date = true → t.year = u.year ∧ t.month = u.month ∧ t.day = u.day
  time : (f.has .time || f.has .microseconds) = true →
    t.hour = u.hour ∧ t.minute = u.minute ∧ t.second = u.second
  fraction : f.has .microseconds = true → t.microsecond = u.microsecond

structure SameContent (f : Flags) (e e' : Entry) : Prop where
  rank : f.has .syslog = false → e.rank = e'.rank
  header : f.has .syslog = false → SameHeader f e.time e'.time
  site : wantsSite f = true → ∀ c ∈ e.site, ∀ c' ∈ e'.site,
    shownFile c.file f = shownFile c'.file f ∧ c.line = c'.line
  message : complete e.message = complete e'.message

section

variable {a b r q : List Char} {d c : Char} {width n m : Nat} {t u : Stamp} {f : Flags}

theorem split_at_first (ha : d ∉ a) (hb : d ∉ b) (h : a ++ d :: r = b ++ d :: q) :
    a = b ∧ r = q := by
  induction a generalizing b with
  | nil =>
    cases b with
    | nil => exact ⟨rfl, (List.cons.inj h).2⟩
    | cons y b => exact absurd (List.cons.inj h).1 (List.ne_of_not_mem_cons hb)
  | cons x a ih =>
    cases b with
    | nil => exact absurd (List.cons.inj h).1.symm (List.ne_of_not_mem_cons ha)
    | cons y b =>
      obtain ⟨rfl, htail⟩ := List.cons.inj h
      obtain ⟨rfl, rfl⟩ :=
        ih (List.not_mem_of_not_mem_cons ha) (List.not_mem_of_not_mem_cons hb) htail
      exact ⟨rfl, rfl⟩

theorem split_at_last (hr : d ∉ r) (hq : d ∉ q) (h : a ++ d :: r = b ++ d :: q) :
    a = b ∧ r = q := by
  have hreverse : r.reverse ++ d :: a.reverse = q.reverse ++ d :: b.reverse := by
    simpa using congrArg List.reverse h
  obtain ⟨hrq, hab⟩ := split_at_first (by simpa using hr) (by simpa using hq) hreverse
  exact ⟨List.reverse_injective hab, List.reverse_injective hrq⟩

theorem points_split {P : Prop} (split : ∀ r q, a ++ r = b ++ q → P ∧ r = q) {u v : List CodePoint}
    (h : Text.points a ++ u = Text.points b ++ v) : P ∧ u = v := by
  rcases List.append_eq_append_iff.mp h with ⟨c, hb, rfl⟩ | ⟨c, ha, rfl⟩
  · obtain ⟨x, y, rfl, hx, rfl⟩ := List.map_eq_append_iff.mp hb
    obtain rfl := Text.points_injective hx
    obtain ⟨hp, hy⟩ := split y [] (List.append_nil _).symm
    exact ⟨hp, by rw [hy]; rfl⟩
  · obtain ⟨x, y, rfl, hx, rfl⟩ := List.map_eq_append_iff.mp ha
    obtain rfl := Text.points_injective hx
    obtain ⟨hp, hy⟩ := split [] y (List.append_nil _)
    exact ⟨hp, by rw [← hy]; rfl⟩

theorem part_split (hwidth : 0 < width) (hn : n < 10 ^ width) (hm : m < 10 ^ width)
    (h : part width n ++ r = part width m ++ q) : n = m ∧ r = q := by
  have hlength : (part width n).length = (part width m).length := by
    rw [part, part, Text.paddedDecimal_length hwidth hn, Text.paddedDecimal_length hwidth hm]
  obtain ⟨hpart, hrest⟩ := List.append_inj h hlength
  have hworth := congrArg Text.worth hpart
  rw [part, part, Text.worth_paddedDecimal, Text.worth_paddedDecimal] at hworth
  exact ⟨hworth, hrest⟩

theorem date_split (ht : t.Valid) (hu : u.Valid) (h : date t ++ r = date u ++ q) :
    (t.year = u.year ∧ t.month = u.month ∧ t.day = u.day) ∧ r = q := by
  unfold Stamp.Valid at ht hu
  simp only [date, List.append_assoc, List.cons_append] at h
  obtain ⟨hyear, h⟩ := part_split (by decide) (by omega) (by omega) h
  obtain ⟨hmonth, h⟩ := part_split (by decide) (by omega) (by omega) (List.cons.inj h).2
  obtain ⟨hday, h⟩ := part_split (by decide) (by omega) (by omega) (List.cons.inj h).2
  exact ⟨⟨hyear, hmonth, hday⟩, h⟩

theorem time_split (ht : t.Valid) (hu : u.Valid) (h : time t ++ r = time u ++ q) :
    (t.hour = u.hour ∧ t.minute = u.minute ∧ t.second = u.second) ∧ r = q := by
  unfold Stamp.Valid at ht hu
  simp only [time, List.append_assoc, List.cons_append] at h
  obtain ⟨hhour, h⟩ := part_split (by decide) (by omega) (by omega) (List.cons.inj h).2
  obtain ⟨hminute, h⟩ := part_split (by decide) (by omega) (by omega) (List.cons.inj h).2
  obtain ⟨hsecond, h⟩ := part_split (by decide) (by omega) (by omega) (List.cons.inj h).2
  exact ⟨⟨hhour, hminute, hsecond⟩, h⟩

theorem fraction_split (ht : t.Valid) (hu : u.Valid) (h : fraction t ++ r = fraction u ++ q) :
    t.microsecond = u.microsecond ∧ r = q := by
  unfold Stamp.Valid at ht hu
  exact part_split (by decide) (by omega) (by omega) (List.cons.inj h).2

theorem optional_split {shown : Bool} {P : Prop} (field : ∀ r q, a ++ r = b ++ q → P ∧ r = q)
    (h : (if shown then a else []) ++ r = (if shown then b else []) ++ q) :
    (shown = true → P) ∧ r = q := by
  cases shown with
  | false => exact ⟨fun hshown => absurd hshown (by decide), h⟩
  | true =>
    obtain ⟨hfield, hrest⟩ := field r q h
    exact ⟨fun _ => hfield, hrest⟩

theorem clock_split (ht : t.Valid) (hu : u.Valid)
    (h : (time t ++ if f.has .microseconds then fraction t else []) ++ r =
      (time u ++ if f.has .microseconds then fraction u else []) ++ q) :
    ((t.hour = u.hour ∧ t.minute = u.minute ∧ t.second = u.second) ∧
      (f.has .microseconds = true → t.microsecond = u.microsecond)) ∧ r = q := by
  rw [List.append_assoc, List.append_assoc] at h
  obtain ⟨htime, h⟩ := time_split ht hu h
  obtain ⟨hfraction, h⟩ := optional_split (fun _ _ => fraction_split ht hu) h
  exact ⟨⟨htime, hfraction⟩, h⟩

theorem header_split (ht : t.Valid) (hu : u.Valid) (h : header t f ++ r = header u f ++ q) :
    SameHeader f t u ∧ r = q := by
  unfold header at h
  dsimp only at h
  by_cases hshown : (f.has .date || (f.has .time || f.has .microseconds)) = true
  · rw [if_pos hshown, if_pos hshown, List.append_assoc, List.append_assoc, List.append_assoc,
      List.append_assoc] at h
    obtain ⟨hdate, h⟩ := optional_split (fun _ _ => date_split ht hu) h
    obtain ⟨hclock, h⟩ := optional_split (fun _ _ => clock_split ht hu) h
    refine ⟨⟨hdate, fun hc => (hclock hc).1, fun hm => (hclock ?_).2 hm⟩, (List.cons.inj h).2⟩
    rw [hm, Bool.or_true]
  · rw [if_neg hshown, if_neg hshown] at h
    simp only [Bool.or_eq_true, not_or, Bool.not_eq_true] at hshown
    obtain ⟨hdate, htime, hmicroseconds⟩ := hshown
    exact ⟨⟨by simp [hdate], by simp [htime, hmicroseconds], by simp [hmicroseconds]⟩, h⟩

theorem front_split {i j : Int} (ht : t.Valid) (hu : u.Valid)
    (h : front (Text.decimal i) f t ++ r = front (Text.decimal j) f u ++ q) :
    (f.has .syslog = false → i = j ∧ SameHeader f t u) ∧ r = q := by
  unfold front at h
  cases hsyslog : f.has .syslog with
  | true =>
    rw [hsyslog] at h
    exact ⟨fun hno => absurd hno (by decide), h⟩
  | false =>
    rw [hsyslog] at h
    simp only [Bool.false_eq_true, ↓reduceIte, List.cons_append, List.append_assoc] at h
    have hends : ∀ k : Int, '>' ∉ Text.decimal k :=
      fun k => Text.not_mem_decimal (by decide) (by decide)
    obtain ⟨htag, h⟩ := split_at_first (hends i) (hends j) (List.cons.inj h).2
    obtain ⟨hheader, h⟩ := header_split ht hu (List.cons.inj h).2
    exact ⟨fun _ => ⟨Text.decimal_injective htag, hheader⟩, h⟩

theorem not_mem_lineNumber {n : Option Int} (hsign : c ≠ '-') (hdigit : Text.decimalValue? c = none)
    (hnone : c ∉ "None".toList) : c ∉ lineNumber n := by
  cases n with
  | none => exact hnone
  | some i => exact Text.not_mem_decimal hsign hdigit

theorem lineNumber_injective : Function.Injective lineNumber := by
  have hword : ∀ i : Int, Text.decimal i ≠ "None".toList := by
    intro i h
    have hletter : 'N' ∉ Text.decimal i := Text.not_mem_decimal (by decide) (by decide)
    rw [h] at hletter
    exact hletter (by decide)
  intro n m h
  cases n with
  | none =>
    cases m with
    | none => rfl
    | some j => exact absurd h.symm (hword j)
  | some i =>
    cases m with
    | none => exact absurd h (hword i)
    | some j => exact congrArg some (Text.decimal_injective h)

/-- A call site ends at the first closing parenthesis, and its file at the last colon before it. -/
theorem site_split {s s' : CallSite} (hs : wantsSite f = true → ')' ∉ shownFile s.file f)
    (hs' : wantsSite f = true → ')' ∉ shownFile s'.file f)
    (h : siteInfo s f ++ r = siteInfo s' f ++ q) :
    (wantsSite f = true → shownFile s.file f = shownFile s'.file f ∧ s.line = s'.line) ∧
      r = q := by
  unfold siteInfo at h
  by_cases hwants : wantsSite f = true
  · rw [if_pos hwants, if_pos hwants] at h
    have hinside : ∀ c : CallSite, ')' ∉ shownFile c.file f →
        ')' ∉ shownFile c.file f ++ ':' :: lineNumber c.line := by
      intro c hc
      have hnumber : ')' ∉ lineNumber c.line :=
        not_mem_lineNumber (by decide) (by decide) (by decide)
      simp [hc, hnumber]
    have hcolon : ∀ n, ':' ∉ lineNumber n :=
      fun n => not_mem_lineNumber (by decide) (by decide) (by decide)
    have hbody : (shownFile s.file f ++ ':' :: lineNumber s.line) ++ ')' :: ' ' :: r =
        (shownFile s'.file f ++ ':' :: lineNumber s'.line) ++ ')' :: ' ' :: q := by
      simpa using h
    obtain ⟨hsite, hrest⟩ := split_at_first (hinside s (hs hwants)) (hinside s' (hs' hwants)) hbody
    obtain ⟨hfile, hline⟩ := split_at_last (hcolon s.line) (hcolon s'.line) hsite
    exact ⟨fun _ => ⟨hfile, lineNumber_injective hline⟩, (List.cons.inj hrest).2⟩
  · rw [if_neg hwants, if_neg hwants] at h
    exact ⟨fun hw => absurd hw hwants, h⟩

end

section

variable {f : Flags} {e e' : Entry} {l l' : List CodePoint}

theorem toInteger_of_int {p : Value} {i : Int} (h : p.int? = some i) : p.toInteger = pure i := by
  cases p <;> simp_all [Value.toInteger, Value.int?]

theorem integerText_outcome {i : Int} {s : List Char}
    (h : (Value.integerText i).outcome = .ok s) : s = Text.decimal i := by
  unfold Value.integerText at h
  cases hsome : Text.decimal? i with
  | none =>
    rw [hsome] at h
    cases h
  | some d =>
    rw [hsome] at h
    rw [← Except.ok.inj h]
    exact Text.eq_decimal_of_some hsome

theorem tagOf_integer {p : Value} {i : Int} {tag : List Char} (hp : p.int? = some i)
    (htag : (tagOf p f).outcome = .ok tag) (now : Stamp) :
    front tag f now = front (Text.decimal i) f now := by
  unfold tagOf at htag
  cases hsyslog : f.has .syslog with
  | true => simp [front, hsyslog]
  | false =>
    rw [hsyslog, toInteger_of_int hp] at htag
    simp only [Bool.false_eq_true, ↓reduceIte, pure_bind] at htag
    rw [integerText_outcome htag]

theorem truth_of_text {m : Value} {s : String} (hm : m.text? = some s) (hs : s.toList ≠ []) :
    m.truth = true := by
  cases m <;> simp_all [Value.text?, Value.truth]

theorem Written.eq_format (hl : Written f e l) (hmessage : e.message ≠ []) :
    l = format e.rank f e.message e.site e.time := by
  cases hl with
  | leveled => rfl
  | @values p m s l hrank htext hpoints hrendered =>
    have hs : s.toList ≠ [] := by
      rintro hnil
      rw [hpoints, hnil] at hmessage
      exact hmessage rfl
    unfold ofValues at hrendered
    rw [truth_of_text htext hs, htext] at hrendered
    obtain ⟨tag, htag, rfl⟩ := Render.of_outcome_ok hrendered
    rw [← hpoints]
    simp [format, assemble, hmessage, tagOf_integer hrank htag]

theorem format_of_message (hmessage : e.message ≠ []) :
    format e.rank f e.message e.site e.time =
      Text.points (front (Text.decimal e.rank) f e.time ++ e.site.elim [] fun s => siteInfo s f) ++
        complete e.message := by
  cases hsite : e.site <;> simp [format, assemble, hmessage]

theorem optional_congr {shown : Bool} {x y : List Char} (h : shown = true → x = y) :
    (if shown then x else []) = if shown then y else [] := by
  cases shown with
  | false => rfl
  | true => exact h rfl

theorem header_congr {t u : Stamp} (h : SameHeader f t u) : header t f = header u f := by
  have hdate : (if f.has .date then date t else []) = if f.has .date then date u else [] := by
    refine optional_congr fun hd => ?_
    obtain ⟨hyear, hmonth, hday⟩ := h.date hd
    rw [date, date, hyear, hmonth, hday]
  have hfraction : (if f.has .microseconds then fraction t else []) =
      if f.has .microseconds then fraction u else [] := by
    refine optional_congr fun hm => ?_
    rw [fraction, fraction, h.fraction hm]
  have htime : (f.has .time || f.has .microseconds) = true → time t = time u := by
    intro hc
    obtain ⟨hhour, hminute, hsecond⟩ := h.time hc
    rw [time, time, hhour, hminute, hsecond]
  unfold header
  dsimp only
  rw [hdate, hfraction, optional_congr fun hc => congrArg (· ++ _) (htime hc)]

theorem format_congr (h : SameContent f e e') (hsites : e.site.isSome = e'.site.isSome)
    (hmessage : e.message ≠ []) (hmessage' : e'.message ≠ []) :
    format e.rank f e.message e.site e.time = format e'.rank f e'.message e'.site e'.time := by
  have hfront : front (Text.decimal e.rank) f e.time = front (Text.decimal e'.rank) f e'.time := by
    unfold front
    split
    · rfl
    · rename_i hsyslog
      have hno := Bool.eq_false_of_not_eq_true hsyslog
      rw [h.rank hno, header_congr (h.header hno)]
  have hsite : (e.site.elim [] fun s => siteInfo s f) = e'.site.elim [] fun s => siteInfo s f := by
    cases hs : e.site <;> cases hs' : e'.site <;> simp only [hs, hs', Option.isSome] at hsites
    case none.none => rfl
    case some.some s s' =>
      refine optional_congr fun hw => ?_
      obtain ⟨hfile, hline⟩ := h.site hw s hs s' hs'
      rw [hfile, hline]
    all_goals cases hsites
  rw [format_of_message hmessage, format_of_message hmessage', hfront, hsite, h.message]

theorem sites_split (h : Legible f e) (h' : Legible f e')
    (hsites : e.site.isSome = e'.site.isSome) {r q : List Char}
    (heq : (e.site.elim [] fun s => siteInfo s f) ++ r =
      (e'.site.elim [] fun s => siteInfo s f) ++ q) :
    (wantsSite f = true → ∀ c ∈ e.site, ∀ c' ∈ e'.site,
      shownFile c.file f = shownFile c'.file f ∧ c.line = c'.line) ∧ r = q := by
  cases hs : e.site <;> cases hs' : e'.site <;>
    simp only [hs, hs', Option.isSome, Option.elim] at hsites heq
  case none.none => exact ⟨by simp, heq⟩
  case some.some s s' =>
    obtain ⟨hsame, hrest⟩ :=
      site_split (fun hw => h.file hw s hs) (fun hw => h'.file hw s' hs') heq
    exact ⟨by simpa using hsame, hrest⟩
  all_goals cases hsites

theorem content_of_format (h : Legible f e) (h' : Legible f e')
    (hsites : e.site.isSome = e'.site.isSome)
    (heq : format e.rank f e.message e.site e.time =
      format e'.rank f e'.message e'.site e'.time) : SameContent f e e' := by
  rw [format_of_message h.message, format_of_message h'.message] at heq
  obtain ⟨⟨hfront, hsite⟩, hmessage⟩ := points_split (fun r q hchars => by
    rw [List.append_assoc, List.append_assoc] at hchars
    obtain ⟨hfront, hchars⟩ := front_split h.time h'.time hchars
    obtain ⟨hsite, hrest⟩ := sites_split h h' hsites hchars
    exact ⟨And.intro hfront hsite, hrest⟩) heq
  exact ⟨fun hno => (hfront hno).1, fun hno => (hfront hno).2, hsite, hmessage⟩

/-- Lines are equal exactly if they were written for entries that agree in all that is shown. -/
theorem lines_tell_content (h : Legible f e) (h' : Legible f e')
    (hsites : e.site.isSome = e'.site.isSome) (hl : Written f e l) (hl' : Written f e' l') :
    l = l' ↔ SameContent f e e' := by
  rw [hl.eq_format h.message, hl'.eq_format h'.message]
  exact ⟨content_of_format h h' hsites,
    fun hsame => format_congr hsame hsites h.message h'.message⟩

end

/-- Only a date and a short file are shown, and the message looks like another call site. -/
theorem disguised_line_tells_content :
    let f : Flags := ⟨17⟩
    let e : Entry :=
      ⟨-12, Text.points "(a) b".toList, some ⟨"/srv/a/d.py", some 23⟩, ⟨2024, 2, 29, 7, 8, 9, 10⟩⟩
    let e' : Entry :=
      ⟨-12, Text.points "(a) b\n".toList, some ⟨"d.py", some 23⟩, ⟨2024, 2, 29, 23, 59, 0, 0⟩⟩
    let l := Text.points "<-12>:2024/02/29 (d.py:23) (a) b\n".toList
    Legible f e ∧ Legible f e' ∧ Written f e l ∧ Written f e' l ∧ SameContent f e e' := by
  intro f e e' l
  have hfile : ∀ {c : CallSite}, ')' ∉ shownFile c.file f →
      wantsSite f = true → ∀ d ∈ some c, ')' ∉ shownFile d.file f := by
    rintro c hc - d ⟨⟩
    exact hc
  have h : Legible f e := ⟨by decide +kernel, by decide, hfile (by decide +kernel)⟩
  have h' : Legible f e' := ⟨by decide +kernel, by decide, hfile (by decide +kernel)⟩
  have hl : Written f e l := by
    have heq : format e.rank f e.message e.site e.time = l := by decide +kernel
    exact heq ▸ .leveled
  have hl' : Written f e' l := by
    have heq : format e'.rank f e'.message e'.site e'.time = l := by decide +kernel
    exact heq ▸ .leveled
  exact ⟨h, h', hl, hl', (lines_tell_content h h' rfl hl hl').mp rfl⟩

end Line

end LeveledLog
