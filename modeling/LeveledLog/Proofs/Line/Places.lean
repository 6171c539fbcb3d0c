import LeveledLog.Proofs.Logger.Direct
import LeveledLog.Proofs.Logger.Unadorned

/-!
Places in lines. The place of a call is a frame of the stack above it, counted from the innermost
one, and a line shows it if the header options ask for places and the call names a depth.
-/

namespace LeveledLog

namespace Line

structure BaseName (path name : List Char) : Prop where
  last : '/' ∉ name
  behind : name = path ∨ ∃ folder, path = folder ++ '/' :: name

/-- The shorter name of a file if that is asked for, and else its whole path. -/
structure Named (f : Flags) (path shown : List Char) : Prop where
  short : f.has .shortFile = true → BaseName path shown
  long : f.has .shortFile = false → shown = path

inductive Placed (f : Flags) (stack : Stack) (depth : Int) : List Char → Prop where
  | untold (none : depth ≤ 0 ∨ (f.has .longFile = false ∧ f.has .shortFile = false)) :
      Placed f stack depth []
  | frame {fr shown} (positive : 0 < depth)
      (wanted : f.has .longFile = true ∨ f.has .shortFile = true)
      (within : stack[(depth - 1).toNat]? = some fr) (named : Named f fr.file.toList shown) :
      Placed f stack depth ('(' :: shown ++ ':' :: lineNumber fr.line ++ [')', ' '])
  | unknown (wanted : f.has .longFile = true ∨ f.has .shortFile = true)
      (beyond : stack.length < depth) : Placed f stack depth "(???:0) ".toList

section

variable {path name : List Char} {f : Flags} {stack : Stack} {depth : Int}

theorem takeWhile_slashless (last : '/' ∉ name) (rest : List Char) :
    (name.reverse ++ rest).takeWhile (· != '/') = name.reverse ++ rest.takeWhile (· != '/') := by
  refine List.takeWhile_append_of_pos fun c hc => ?_
  have hne : c ≠ '/' := by
    rintro rfl
    exact last (List.mem_reverse.mp hc)
  simpa using hne

theorem baseName_after (folder : List Char) (last : '/' ∉ name) :
    baseName (folder ++ '/' :: name) = name := by
  have hreverse : (folder ++ '/' :: name).reverse = name.reverse ++ '/' :: folder.reverse := by simp
  rw [baseName, hreverse, takeWhile_slashless last]
  simp

theorem baseName_slashless (last : '/' ∉ path) : baseName path = path := by
  have hwhole := takeWhile_slashless last []
  rw [List.takeWhile_nil, List.append_nil] at hwhole
  rw [baseName, hwhole, List.reverse_reverse]

theorem split_at_slash (path : List Char) :
    '/' ∉ path ∨ ∃ folder name, path = folder ++ '/' :: name ∧ '/' ∉ name := by
  induction path with
  | nil => exact .inl (List.not_mem_nil)
  | cons c rest ih =>
    rcases ih with last | ⟨folder, name, rfl, last⟩
    · by_cases hc : c = '/'
      · exact .inr ⟨[], rest, by rw [hc]; rfl, last⟩
      · exact .inl (by simp [last, Ne.symm hc])
    · exact .inr ⟨c :: folder, name, rfl, last⟩

theorem baseName_iff : BaseName path name ↔ name = baseName path := by
  constructor
  · rintro ⟨last, rfl | ⟨folder, rfl⟩⟩
    · exact (baseName_slashless last).symm
    · exact (baseName_after folder last).symm
  · rintro rfl
    rcases split_at_slash path with last | ⟨folder, name, rfl, last⟩
    · rw [baseName_slashless last]
      exact ⟨last, .inl rfl⟩
    · rw [baseName_after folder last]
      exact ⟨last, .inr ⟨folder, rfl⟩⟩

theorem shownFile_named (file : String) (f : Flags) : Named f file.toList (shownFile file f) := by
  unfold shownFile
  cases hshort : f.has .shortFile with
  | true => exact ⟨fun _ => baseName_iff.mpr rfl, fun h => absurd (hshort.symm.trans h) (by simp)⟩
  | false => exact ⟨fun h => absurd (hshort.symm.trans h) (by simp), fun _ => rfl⟩

theorem unknown_shown (f : Flags) :
    '(' :: shownFile CallSite.unknown.file f ++ ':' :: lineNumber CallSite.unknown.line ++
      [')', ' '] = "(???:0) ".toList := by
  unfold shownFile
  split <;> decide +kernel

theorem wantsSite_iff : wantsSite f = true ↔ f.has .longFile = true ∨ f.has .shortFile = true := by
  rw [wantsSite, Bool.or_eq_true]

theorem placed_site (f : Flags) (stack : Stack) (depth : Int) :
    Placed f stack depth (placed f
      (if 0 < depth ∧ wantsSite f = true then some (stack.siteAt depth.toNat) else none)) := by
  by_cases told : 0 < depth ∧ wantsSite f = true
  · obtain ⟨positive, hwants⟩ := told
    have wanted := wantsSite_iff.mp hwants
    have hindex : depth.toNat - 1 = (depth - 1).toNat := by omega
    rw [if_pos ⟨positive, hwants⟩, placed, Option.elim, siteInfo, if_pos hwants, Stack.siteAt,
      Stack.siteBeyond, hindex]
    cases within : stack[(depth - 1).toNat]? with
    | some fr => exact .frame positive wanted within (shownFile_named _ _)
    | none =>
      have beyond := List.getElem?_eq_none_iff.mp within
      dsimp only
      rw [unknown_shown]
      have deep : (stack.length : Int) < depth := by omega
      exact .unknown wanted deep
  · rw [if_neg told]
    refine .untold ?_
    by_cases positive : 0 < depth
    · refine .inr ?_
      have hnot : ¬(f.has .longFile = true ∨ f.has .shortFile = true) := fun wanted =>
        told ⟨positive, wantsSite_iff.mpr wanted⟩
      simpa using hnot
    · exact .inl (Int.not_lt.mp positive)

end

end Line

end LeveledLog
