import LeveledLog.Text.Blank
import Mathlib.Data.List.TakeWhile

/-!
Texts without what is around them, and texts in words. Both are said without the functions that find
them: a stripped text is what is left between two margins, and words are the longest runs without a
separator. Each text has exactly one stripped form, and its words in exactly one way.
-/

namespace LeveledLog.Text

/-- A text between two margins, which neither begins nor ends like a margin. -/
structure Stripped (margin : Char → Bool) (s t : List Char) : Prop where
  around : ∃ before after, s = before ++ t ++ after ∧
    (∀ c ∈ before, margin c = true) ∧ ∀ c ∈ after, margin c = true
  first : ∀ c ∈ t.head?, margin c = false
  last : ∀ c ∈ t.getLast?, margin c = false

/-- Runs without separators, in order. Each goes on to a separator or to the end. -/
inductive Words (separates : Char → Bool) : List Char → List (List Char) → Prop where
  | none {gap : List Char} (blank : ∀ c ∈ gap, separates c = true) : Words separates gap []
  | word {gap word rest : List Char} {words : List (List Char)}
      (blank : ∀ c ∈ gap, separates c = true) (nonempty : word ≠ [])
      (whole : ∀ c ∈ word, separates c = false) (ends : ∀ c ∈ rest.head?, separates c = true)
      (more : Words separates rest words) : Words separates (gap ++ word ++ rest) (word :: words)

section

variable {margin separates : Char → Bool} {s t gap word rest : List Char}

theorem dropWhile_margin (hgap : ∀ c ∈ gap, margin c = true)
    (hfirst : ∀ c ∈ s.head?, margin c = false) : (gap ++ s).dropWhile margin = s := by
  rw [List.dropWhile_append_of_pos hgap]
  cases s with
  | nil => rfl
  | cons c s =>
    have hc : ¬margin c = true := by simpa using hfirst c rfl
    exact List.dropWhile_cons_of_neg hc

theorem split_dropWhile (margin : Char → Bool) (s : List Char) :
    ∃ gap, s = gap ++ s.dropWhile margin ∧ (∀ c ∈ gap, margin c = true) ∧
      ∀ c ∈ (s.dropWhile margin).head?, margin c = false := by
  refine ⟨s.takeWhile margin, List.takeWhile_append_dropWhile.symm, ?_, ?_⟩
  · intro c hc
    exact List.mem_takeWhile_imp hc
  · intro c hc
    have hnot := List.head?_dropWhile_not margin s
    rw [Option.mem_def.mp hc] at hnot
    simpa using hnot

theorem Stripped.eq_trim (h : Stripped margin s t) : trim margin s = t := by
  obtain ⟨before, after, rfl, hbefore, hafter⟩ := h.around
  unfold trim
  by_cases ht : t = []
  · subst ht
    have hall : ∀ c ∈ before ++ after, margin c = true := by
      intro c hc
      rcases List.mem_append.mp hc with hc | hc
      · exact hbefore c hc
      · exact hafter c hc
    have hnone : (before ++ [] ++ after).dropWhile margin = [] := by
      rw [List.append_nil]
      exact List.dropWhile_eq_nil_iff.mpr hall
    rw [hnone]
    rfl
  · have hhead : (t ++ after).head? = t.head? := by
      rw [List.head?_append, Option.or_of_isSome]
      exact List.isSome_head?.mpr ht
    rw [List.append_assoc, dropWhile_margin hbefore (hhead ▸ h.first), List.reverse_append,
      dropWhile_margin (by simpa using hafter) (by simpa using h.last), List.reverse_reverse]

theorem trim_stripped (margin : Char → Bool) (s : List Char) :
    Stripped margin s (trim margin s) := by
  obtain ⟨before, hs, hbefore, hfirst⟩ := split_dropWhile margin s
  obtain ⟨after, ht, hafter, hlast⟩ := split_dropWhile margin (s.dropWhile margin).reverse
  have hrest : s.dropWhile margin = trim margin s ++ after.reverse := by
    have hreverse := congrArg List.reverse ht
    rwa [List.reverse_reverse, List.reverse_append] at hreverse
  refine ⟨⟨before, after.reverse, ?_, hbefore, by simpa using hafter⟩, ?_, ?_⟩
  · rw [List.append_assoc, ← hrest]
    exact hs
  · intro c hc
    refine hfirst c ?_
    rw [hrest, Option.mem_def, List.head?_append, Option.mem_def.mp hc]
    rfl
  · intro c hc
    refine hlast c ?_
    rwa [trim, List.getLast?_reverse] at hc

theorem stripped_iff : Stripped margin s t ↔ trim margin s = t := by
  constructor
  · exact Stripped.eq_trim
  · rintro rfl
    exact trim_stripped margin s

theorem pieces_eq_splitOnP (separates : Char → Bool) (s : List Char) :
    pieces separates s = s.splitOnP separates := by
  induction s with
  | nil => rfl
  | cons c s ih =>
    rw [pieces, List.splitOnP_cons_eq_if_modifyHead, ih]
    split
    · rfl
    · obtain ⟨piece, more, hpieces⟩ := List.exists_cons_of_ne_nil (List.splitOnP_ne_nil separates s)
      rw [hpieces]
      rfl

theorem words_gap (hgap : ∀ c ∈ gap, separates c = true) (s : List Char) :
    words separates (gap ++ s) = words separates s := by
  induction gap with
  | nil => rfl
  | cons c gap ih =>
    have hc : separates c = true := hgap c List.mem_cons_self
    have hrest := ih fun d hd => hgap d (List.mem_cons_of_mem c hd)
    rw [List.cons_append, words, pieces, if_pos hc, List.filter_cons_of_neg (by simp), ← words,
      hrest]

theorem words_word (hword : ∀ c ∈ word, separates c = false) (hnonempty : word ≠ [])
    (hends : ∀ c ∈ rest.head?, separates c = true) :
    words separates (word ++ rest) = word :: words separates rest := by
  have hkept : ∀ more, (word :: more).filter (!·.isEmpty) = word :: more.filter (!·.isEmpty) :=
    fun more => List.filter_cons_of_pos (by simpa using hnonempty)
  rw [words, pieces_eq_splitOnP]
  cases rest with
  | nil =>
    rw [List.append_nil, List.splitOnP_eq_singleton hword, hkept]
    rfl
  | cons c rest =>
    have hc : separates c = true := hends c rfl
    have hgap : ∀ d ∈ [c], separates d = true := by simpa using hc
    rw [List.splitOnP_append_cons_of_forall_mem hword c hc, hkept,
      ← pieces_eq_splitOnP, ← words, ← words_gap hgap]
    rfl

theorem Words.eq_words {ws : List (List Char)} (h : Words separates s ws) :
    words separates s = ws := by
  induction h with
  | none hgap =>
    have hnothing := words_gap hgap []
    rwa [List.append_nil] at hnothing
  | word hgap hnonempty hwhole hends _ ih =>
    rw [List.append_assoc, words_gap hgap, words_word hwhole hnonempty hends, ih]

/-- A separator in front of a text adds to its first gap. -/
theorem Words.cons_separator {c : Char} {ws : List (List Char)} (h : Words separates s ws)
    (hc : separates c = true) : Words separates (c :: s) ws := by
  have hwider : ∀ gap : List Char, (∀ d ∈ gap, separates d = true) →
      ∀ d ∈ c :: gap, separates d = true := by
    intro gap hgap d hd
    rcases List.mem_cons.mp hd with rfl | hd
    · exact hc
    · exact hgap d hd
  cases h with
  | none hgap => exact .none (hwider _ hgap)
  | word hgap hnonempty hwhole hends more =>
    exact .word (hwider _ hgap) hnonempty hwhole hends more

theorem Words.leading {ws : List (List Char)} (hnonempty : word ≠ [])
    (hwhole : ∀ c ∈ word, separates c = false) (hends : ∀ c ∈ rest.head?, separates c = true)
    (more : Words separates rest ws) : Words separates (word ++ rest) (word :: ws) := by
  have hnone : ∀ c ∈ ([] : List Char), separates c = true := by simp
  exact .word hnone hnonempty hwhole hends more

theorem Words.cons_letter {c : Char} {ws : List (List Char)} (h : Words separates s ws)
    (hc : separates c = false) : ∃ vs, Words separates (c :: s) vs := by
  have halone : ∀ d ∈ [c], separates d = false := by simpa using hc
  have hown : (∀ d ∈ s.head?, separates d = true) → Words separates (c :: s) ([c] :: ws) :=
    fun hends => .leading (List.cons_ne_nil c []) halone hends h
  cases h with
  | none hgap => exact ⟨_, hown fun d hd => hgap d (List.mem_of_head? hd)⟩
  | @word gap word rest words hgap hnonempty hwhole hends more =>
    cases gap with
    | nil =>
      have hlonger : ∀ d ∈ c :: word, separates d = false := by
        intro d hd
        rcases List.mem_cons.mp hd with rfl | hd
        · exact hc
        · exact hwhole d hd
      exact ⟨_, .leading (List.cons_ne_nil c word) hlonger hends more⟩
    | cons d gap =>
      refine ⟨_, hown ?_⟩
      rintro e ⟨⟩
      exact hgap d List.mem_cons_self

theorem exists_words (separates : Char → Bool) (s : List Char) : ∃ ws, Words separates s ws := by
  induction s with
  | nil => exact ⟨[], .none (by simp)⟩
  | cons c s ih =>
    obtain ⟨ws, h⟩ := ih
    cases hc : separates c with
    | true => exact ⟨ws, h.cons_separator hc⟩
    | false => exact h.cons_letter hc

theorem words_iff {ws : List (List Char)} : Words separates s ws ↔ words separates s = ws := by
  constructor
  · exact Words.eq_words
  · rintro rfl
    obtain ⟨ws, h⟩ := exists_words separates s
    rwa [h.eq_words]

end

end LeveledLog.Text
