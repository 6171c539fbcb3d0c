import LeveledLog.Proofs.Template.Fallback

/-!
Templates written from literal texts and places for strings. With as many strings as places, or
with a mapping that has all keys, the literals come out with the strings between them. With any
other arguments the template is written in front of the arguments. Without arguments it is left as
it is, percent signs included.
-/

namespace LeveledLog

namespace Template

/-- A part of a template: a literal text, or a place for a string. -/
inductive Segment (κ : Type) where
  | literal (s : List Char)
  | place (k : κ)

section

variable {κ : Type}

/-- A literal text as a template has it, with each percent sign written twice. -/
def doubled (s : List Char) : List Char := s.flatMap fun c => if c = '%' then ['%', '%'] else [c]

/-- A place without a key is `%s`, one with a key is `%(key)s`. -/
def Segment.written (key : κ → Option (List Char)) : Segment κ → List Char
  | literal s => doubled s
  | place k =>
    match key k with
    | none => ['%', 's']
    | some name => '%' :: '(' :: name ++ [')', 's']

def writtenParts (key : κ → Option (List Char)) (ps : List (Segment κ)) : List Char :=
  ps.flatMap (Segment.written key)

def places : List (Segment κ) → List κ
  | [] => []
  | .literal _ :: ps => places ps
  | .place k :: ps => k :: places ps

def substituted (text : κ → List Char) : List (Segment κ) → List Char
  | [] => []
  | .literal s :: ps => s ++ substituted text ps
  | .place k :: ps => text k ++ substituted text ps

def interleaved : List (Segment Unit) → List String → List Char
  | [], _ => []
  | .literal s :: ps, args => s ++ interleaved ps args
  | .place _ :: ps, a :: args => a.toList ++ interleaved ps args
  | .place _ :: ps, [] => interleaved ps []

/-! ### Reading a written template -/

/-- The directive of a place: a conversion to text without flags, width or precision. -/
def plainText (key : Option (List Char)) : Directive :=
  ⟨key, false, false, false, false, false, none, none, some 's'⟩

theorem parse_doubled (s rest : List Char) :
    parse (doubled s ++ rest) = s.map Piece.literal ++ parse rest := by
  induction s with
  | nil => rfl
  | cons c s ih =>
    by_cases h : c = '%'
    · subst h
      have hwritten : doubled ('%' :: s) ++ rest = '%' :: '%' :: (doubled s ++ rest) := rfl
      rw [hwritten, parse, ih]
      rfl
    · have hwritten : doubled (c :: s) ++ rest = c :: (doubled s ++ rest) := by
        simp [doubled, h]
      rw [hwritten, parse, ih]
      · rfl
      · intro _ hc _
        exact h hc
      · intro hc
        exact h hc

theorem scanKey_closed {name : List Char} (hopen : '(' ∉ name) (hclose : ')' ∉ name)
    (rest : List Char) : scanKey 0 (name ++ ')' :: rest) = some (name, rest) := by
  induction name with
  | nil => rfl
  | cons c name ih =>
    obtain ⟨hc, hopen⟩ := List.ne_and_not_mem_of_not_mem_cons hopen
    obtain ⟨hc', hclose⟩ := List.ne_and_not_mem_of_not_mem_cons hclose
    rw [List.cons_append, scanKey, if_neg hc'.symm, if_neg hc.symm, ih hopen hclose]
    rfl

theorem parse_place (rest : List Char) :
    parse ('%' :: 's' :: rest) = .directive (plainText none) :: parse rest := by
  rw [parse]
  · rfl
  · rintro _ ⟨⟩

theorem parse_keyed {name : List Char} (hopen : '(' ∉ name) (hclose : ')' ∉ name)
    (rest : List Char) :
    parse ('%' :: '(' :: (name ++ ')' :: 's' :: rest)) =
      .directive (plainText (some name)) :: parse rest := by
  have hscan : scanDirective ('(' :: (name ++ ')' :: 's' :: rest)) =
      (.directive (plainText (some name)), rest) := by
    rw [scanDirective, scanKey_closed hopen hclose]
    rfl
  rw [parse, hscan]
  rintro _ ⟨⟩

def Segment.pieces (key : κ → Option (List Char)) : Segment κ → List Piece
  | literal s => s.map Piece.literal
  | place k => [.directive (plainText (key k))]

/-- A template is read back part by part, as keys without parentheses end where they should. -/
theorem parse_written (key : κ → Option (List Char)) (ps : List (Segment κ))
    (hkeys : ∀ k ∈ places ps, ∀ name ∈ key k, '(' ∉ name ∧ ')' ∉ name) :
    parse (writtenParts key ps) = ps.flatMap (Segment.pieces key) := by
  induction ps with
  | nil => exact parse.eq_1
  | cons p ps ih =>
    cases p with
    | literal s =>
      have hrest := ih hkeys
      rw [writtenParts, List.flatMap_cons, Segment.written, parse_doubled]
      exact congrArg (s.map Piece.literal ++ ·) hrest
    | place k =>
      have hrest := ih fun l hl => hkeys l (List.mem_cons_of_mem _ hl)
      cases hk : key k with
      | none =>
        have hwritten : writtenParts key (.place k :: ps) = '%' :: 's' :: writtenParts key ps := by
          simp [writtenParts, Segment.written, hk]
        rw [hwritten, parse_place, hrest]
        simp [Segment.pieces, hk]
      | some name =>
        obtain ⟨hopen, hclose⟩ := hkeys k (List.mem_cons_self ..) name hk
        have hwritten : writtenParts key (.place k :: ps) =
            '%' :: '(' :: (name ++ ')' :: 's' :: writtenParts key ps) := by
          simp [writtenParts, Segment.written, hk]
        rw [hwritten, parse_keyed hopen hclose, hrest]
        simp [Segment.pieces, hk]

end

/-! ### Filling it in -/

section

variable {room : Room}

theorem render_literals (s : List Char) (rest : List Piece) (supply : Supply) :
    renderPieces room (s.map Piece.literal ++ rest) supply =
      (Text.points s ++ ·) <$> renderPieces room rest supply := by
  induction s with
  | nil => exact (id_map _).symm
  | cons c s ih =>
    rw [List.map_cons, List.cons_append, renderPieces, ih, bind_pure_comp, Functor.map_map]
    rfl

theorem render_directive {d : Directive} {supply supply' : Supply} {piece : List CodePoint}
    (h : d.render room supply = pure (piece, supply')) (rest : List Piece) :
    renderPieces room (.directive d :: rest) supply =
      (piece ++ ·) <$> renderPieces room rest supply' := by
  rw [renderPieces, h, pure_bind]
  exact bind_pure_comp _ _

variable (room) in
theorem plainText_string (entries : Option (List (Value × Value))) (s : String)
    (rest : List Value) :
    (plainText none).render room ⟨entries, .text s :: rest⟩ =
      pure (Text.points s.toList, ⟨entries, rest⟩) := by
  have hlayout : (Field.ofText none s.toList).layout (plainText none) false 0 =
      Text.points s.toList := by
    simp [Field.layout, Field.ofText]
  exact congrArg (fun piece => (pure (piece, Supply.mk entries rest) : Render _)) hlayout

variable (room) in
/-- A key puts its value in the place of all values, and then it is a place like any other. -/
theorem plainText_keyed (entries : List (Value × Value)) (pending : List Value)
    (name : List Char) :
    (plainText (some name)).render room ⟨some entries, pending⟩ =
      match Value.lookup (.text (String.ofList name)) entries with
      | some v => (plainText none).render room ⟨some entries, [v]⟩
      | none => throw .noSuchKey := by
  cases h : Value.lookup (.text (String.ofList name)) entries with
  | none =>
    dsimp only
    rw [Directive.render]
    simp only [plainText, Supply.select, h]
    rfl
  | some v =>
    dsimp only
    rw [Directive.render]
    simp only [plainText, Supply.select, h, pure_bind]
    rfl

def texts (args : List String) : List Value := args.map Value.text

/-- Strings fill places from left to right; one too many or too few does not fit. -/
theorem render_interleaved (ps : List (Segment Unit)) (args : List String) :
    renderPieces room (ps.flatMap (Segment.pieces fun _ => none)) ⟨none, texts args⟩ =
      if (places ps).length = args.length then pure (Text.points (interleaved ps args))
      else throw .wrongType := by
  induction ps generalizing args with
  | nil =>
    cases args with
    | nil => rfl
    | cons a args => rfl
  | cons p ps ih =>
    cases p with
    | literal s =>
      rw [List.flatMap_cons, Segment.pieces, render_literals, ih, places]
      by_cases h : (places ps).length = args.length
      · rw [if_pos h, if_pos h, map_pure, interleaved, Text.points_append]
      · rw [if_neg h, if_neg h, Render.map_throw]
    | place k =>
      rw [List.flatMap_cons, Segment.pieces, List.singleton_append]
      cases args with
      | nil => rfl
      | cons a args =>
        have hfilled := plainText_string room none a (texts args)
        rw [texts, List.map_cons, ← texts, render_directive hfilled, ih]
        simp only [places, List.length_cons, Nat.add_right_cancel_iff]
        by_cases h : (places ps).length = args.length
        · rw [if_pos h, if_pos h, map_pure, interleaved, Text.points_append]
        · rw [if_neg h, if_neg h, Render.map_throw]

def textEntries (m : List (String × String)) : List (Value × Value) :=
  m.map fun e => (.text e.1, .text e.2)

theorem lookup_text (name : String) (m : List (String × String)) :
    Value.lookup (.text name) (textEntries m) = (m.lookup name).map Value.text := by
  induction m with
  | nil => rfl
  | cons e m ih =>
    obtain ⟨k, v⟩ := e
    have hequal : (Value.text name).equals (.text k) = (name == k) := by
      rw [Value.equals, Value.text?]
      exact Bool.beq_comm
    rw [textEntries, List.map_cons, Value.lookup, hequal, List.lookup_cons]
    by_cases h : name = k
    · subst h
      simp
    · rw [if_neg (by simpa using h)]
      simp only [beq_eq_false_iff_ne.mpr h]
      exact ih

def textOf (m : List (String × String)) (name : List Char) : List Char :=
  ((m.lookup (String.ofList name)).getD "").toList

theorem render_keyed (m : List (String × String)) (ps : List (Segment (List Char)))
    (pending : List Value) :
    renderPieces room (ps.flatMap (Segment.pieces some)) ⟨some (textEntries m), pending⟩ =
      if ∀ k ∈ places ps, (m.lookup (String.ofList k)).isSome then
        pure (Text.points (substituted (textOf m) ps))
      else throw .noSuchKey := by
  induction ps generalizing pending with
  | nil => simp [places, renderPieces, substituted]
  | cons p ps ih =>
    cases p with
    | literal s =>
      rw [List.flatMap_cons, Segment.pieces, render_literals, ih, places]
      by_cases h : ∀ k ∈ places ps, (m.lookup (String.ofList k)).isSome
      · rw [if_pos h, if_pos h, map_pure, substituted, Text.points_append]
      · rw [if_neg h, if_neg h, Render.map_throw]
    | place k =>
      rw [List.flatMap_cons, Segment.pieces, List.singleton_append]
      simp only [places, List.forall_mem_cons]
      have hplace := plainText_keyed room (textEntries m) pending k
      rw [lookup_text] at hplace
      cases hk : m.lookup (String.ofList k) with
      | none =>
        rw [hk] at hplace
        rw [renderPieces, hplace]
        simp only [Option.isSome_none, Bool.false_eq_true, false_and, if_false]
        rfl
      | some v =>
        rw [hk] at hplace
        have hfilled := hplace.trans (plainText_string room (some (textEntries m)) v [])
        rw [render_directive hfilled, ih]
        simp only [Option.isSome_some, true_and]
        by_cases h : ∀ k ∈ places ps, (m.lookup (String.ofList k)).isSome
        · rw [if_pos h, if_pos h, map_pure, substituted, Text.points_append, textOf, hk,
            Option.getD_some]
        · rw [if_neg h, if_neg h, Render.map_throw]

end

end Template

/-! ### What is written for arguments that do not fit -/

open Template

theorem Value.shownList_texts (args : List String) :
    shownList (texts args) = pure (args.map fun a => Text.quote a.toList) := by
  induction args with
  | nil => rfl
  | cons a args ih =>
    rw [texts, List.map_cons, ← texts, shownList, shown_text, ih]
    rfl

theorem Value.shownEntries_texts (m : List (String × String)) :
    shownEntries (textEntries m) =
      pure (m.map fun e => Text.quote e.1.toList ++ ':' :: ' ' :: Text.quote e.2.toList) := by
  induction m with
  | nil => rfl
  | cons e m ih =>
    rw [textEntries, List.map_cons, ← textEntries, shownEntries, shown_text, shown_text, ih]
    rfl

/-- A mapping of strings to strings as an argument, as a whole or as a view of it. -/
inductive Maps (m : List (String × String)) : Value → Prop where
  | dict : Maps m (.dict (textEntries m))
  | view : Maps m (.view (textEntries m))

theorem Maps.entries {m : List (String × String)} {v : Value} (h : Maps m v) :
    v.entries? = some (textEntries m) := by
  cases h <;> rfl

theorem Maps.shown {m : List (String × String)} {v : Value} (h : Maps m v) :
    ∃ s, v.shown = pure s := by
  cases h with
  | dict => exact ⟨_, by rw [Value.shown_dict, Value.shownEntries_texts, map_pure]⟩
  | view => exact ⟨_, by rw [Value.shown_view, Value.shownEntries_texts, map_pure]⟩

theorem operands_mapping {m : List (String × String)} {v : Value} (h : Maps m v) (hm : m ≠ []) :
    operands [v] = .mapping v (textEntries m) := by
  cases m with
  | nil => exact absurd rfl hm
  | cons e m => simp only [operands, h.entries, textEntries, List.map_cons]

theorem operands_texts (args : List String) : operands (texts args) = .tuple (texts args) := by
  match args with
  | [] => rfl
  | [a] => rfl
  | a :: b :: args => rfl

section

variable {room : Room}

theorem message_unfilled {t : String} {args : List Value} {shown : List Char} {f : Fault}
    (given : args ≠ []) (h : fill room t.toList (operands args) = throw f)
    (mismatch : f.kind.isMismatch = true) (hshown : (Value.tuple args).shown = pure shown) :
    message room (.text t) args = pure (Text.points (t.toList ++ ' ' :: shown)) := by
  rw [message_failed given h, if_pos mismatch, hshown, map_pure]

structure Interpolates (room : Room) : Prop where
  /-- As many strings as places. -/
  filled : ∀ (ps : List (Segment Unit)) (args : List String), args ≠ [] →
    args.length = (places ps).length →
    message room (.text (String.ofList (writtenParts (fun _ => none) ps))) (texts args) =
      pure (Text.points (interleaved ps args))
  /-- Strings left over, or places. -/
  unequal : ∀ (ps : List (Segment Unit)) (args : List String), args ≠ [] →
    args.length ≠ (places ps).length →
    message room (.text (String.ofList (writtenParts (fun _ => none) ps))) (texts args) =
      pure (Text.points (writtenParts (fun _ => none) ps ++ ' ' ::
        Value.parenthesized (args.map fun a => Text.quote a.toList)))
  /-- A mapping with all keys. -/
  mapped : ∀ (ps : List (Segment (List Char))) (m : List (String × String)) (v : Value),
    m ≠ [] → Maps m v → (∀ k ∈ places ps, '(' ∉ k ∧ ')' ∉ k) →
    (∀ k ∈ places ps, String.ofList k ∈ m.map Prod.fst) →
    message room (.text (String.ofList (writtenParts some ps))) [v] =
      pure (Text.points (substituted (textOf m) ps))
  /-- A mapping that lacks a key. -/
  unmapped : ∀ (ps : List (Segment (List Char))) (m : List (String × String)) (v : Value),
    m ≠ [] → Maps m v → (∀ k ∈ places ps, '(' ∉ k ∧ ')' ∉ k) →
    (∃ k ∈ places ps, String.ofList k ∉ m.map Prod.fst) →
    ∃ shown, v.shown = pure shown ∧
      message room (.text (String.ofList (writtenParts some ps))) [v] =
        pure (Text.points (writtenParts some ps ++ ' ' :: Value.parenthesized [shown]))
  /-- No arguments. -/
  verbatim : ∀ t : String, message room (.text t) [] = pure (Text.points t.toList)

theorem texts_ne_nil {args : List String} (h : args ≠ []) : texts args ≠ [] := by
  simpa [texts] using h

theorem lookup_isSome_iff (name : String) (m : List (String × String)) :
    (m.lookup name).isSome ↔ name ∈ m.map Prod.fst := by
  induction m with
  | nil => simp
  | cons e m ih =>
    obtain ⟨k, v⟩ := e
    rw [List.lookup_cons]
    by_cases h : name = k
    · simp [h]
    · simp only [beq_eq_false_iff_ne.mpr h, List.map_cons, List.mem_cons, h, false_or, ih]

variable (room) in
theorem fill_unkeyed (ps : List (Segment Unit)) (args : List String) :
    fill room (String.ofList (writtenParts (fun _ => none) ps)).toList (operands (texts args)) =
      if (places ps).length = args.length then pure (Text.points (interleaved ps args))
      else throw .wrongType := by
  rw [String.toList_ofList, operands_texts, fill, parse_written _ _ (by simp), Operands.supply]
  exact render_interleaved ps args

variable (room) in
theorem fill_keyed {ps : List (Segment (List Char))} {m : List (String × String)} {v : Value}
    (hm : m ≠ []) (hv : Maps m v) (hkeys : ∀ k ∈ places ps, '(' ∉ k ∧ ')' ∉ k) :
    fill room (String.ofList (writtenParts some ps)).toList (operands [v]) =
      if ∀ k ∈ places ps, String.ofList k ∈ m.map Prod.fst then
        pure (Text.points (substituted (textOf m) ps))
      else throw .noSuchKey := by
  have hread := parse_written some ps fun k hk name hname => by
    cases hname
    exact hkeys k hk
  rw [String.toList_ofList, operands_mapping hv hm, fill, hread, Operands.supply, render_keyed]
  simp only [lookup_isSome_iff]

end

end LeveledLog
