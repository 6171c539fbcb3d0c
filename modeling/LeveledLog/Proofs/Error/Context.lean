import LeveledLog.Error
import Mathlib.Data.List.Forall2
import Mathlib.Data.List.Induction
import Mathlib.Data.List.Nodup

/-!
The context of an error as the writes to it. Keys are strings. Each key has the place of its first
write and the value of its last, and the entries are never reordered.
-/

namespace LeveledLog.LogError

def write (key : String) (value : Value) : List (String × Value) → List (String × Value)
  | [] => [(key, value)]
  | (k, v) :: rest => if key = k then (k, value) :: rest else (k, v) :: write key value rest

/-- Entries that have strings for keys, be they texts or severities. -/
def Spells (entries : List (Value × Value)) (named : List (String × Value)) : Prop :=
  List.Forall₂ (fun e n => e.1.text? = some n.1 ∧ e.2 = n.2) entries named

/-- Entries that writes come to: each key once, where it was first written, with the value that was
written last. -/
structure Overlaid (writes entries : List (String × Value)) : Prop where
  once : (entries.map (·.1)).Nodup
  order : entries.map (·.1) = (writes.map (·.1)).eraseDups
  values : ∀ key, entries.lookup key = writes.reverse.lookup key

section

variable {key other : String} {k v : Value} {entries : List (Value × Value)}
  {named writes added : List (String × Value)}

theorem write_keys (key : String) (v : Value) (named : List (String × Value)) :
    (write key v named).map (·.1) =
      if key ∈ named.map (·.1) then named.map (·.1) else named.map (·.1) ++ [key] := by
  induction named with
  | nil => rfl
  | cons n named ih =>
    obtain ⟨other, w⟩ := n
    rw [write, List.map_cons]
    by_cases h : key = other
    · rw [if_pos h, if_pos (h ▸ List.mem_cons_self), List.map_cons]
    · have hmem : key ∈ other :: named.map (·.1) ↔ key ∈ named.map (·.1) :=
        ⟨fun hc => (List.mem_cons.mp hc).resolve_left h, List.mem_cons_of_mem other⟩
      rw [if_neg h, List.map_cons, ih]
      by_cases hold : key ∈ named.map (·.1)
      · rw [if_pos hold, if_pos (hmem.mpr hold)]
      · rw [if_neg hold, if_neg (fun hc => hold (hmem.mp hc)), List.cons_append]

theorem lookup_cons_eq (first : String) (w : Value) (named : List (String × Value))
    (other : String) : ((first, w) :: named).lookup other =
      if other = first then some w else named.lookup other := by
  rw [List.lookup_cons]
  by_cases h : other = first
  · rw [if_pos h, beq_iff_eq.mpr h]
  · rw [if_neg h, beq_eq_false_iff_ne.mpr h]

theorem write_lookup (key : String) (v : Value) (named : List (String × Value)) (other : String) :
    (write key v named).lookup other = if other = key then some v else named.lookup other := by
  induction named with
  | nil => exact lookup_cons_eq key v [] other
  | cons n named ih =>
    obtain ⟨first, w⟩ := n
    rw [write]
    by_cases h : key = first
    · subst h
      rw [if_pos rfl, lookup_cons_eq, lookup_cons_eq]
      by_cases hother : other = key
      · rw [if_pos hother, if_pos hother]
      · rw [if_neg hother, if_neg hother, if_neg hother]
    · rw [if_neg h, lookup_cons_eq, lookup_cons_eq, ih]
      by_cases hfirst : other = first
      · have hkey : other ≠ key := fun hc => h (hc.symm.trans hfirst)
        rw [if_pos hfirst, if_neg hkey, if_pos hfirst]
      · rw [if_neg hfirst, if_neg hfirst]

theorem write_new (h : key ∉ named.map (·.1)) : write key v named = named ++ [(key, v)] := by
  induction named with
  | nil => rfl
  | cons n named ih =>
    obtain ⟨other, w⟩ := n
    have hne : key ≠ other := List.ne_of_not_mem_cons h
    have hrest : key ∉ named.map (·.1) := List.not_mem_of_not_mem_cons h
    rw [write, if_neg hne, ih hrest, List.cons_append]

theorem eraseDups_snoc (keys : List String) (key : String) :
    (keys ++ [key]).eraseDups =
      if key ∈ keys then keys.eraseDups else keys.eraseDups ++ [key] := by
  rw [List.eraseDups_append]
  by_cases h : key ∈ keys
  · have hnone : [key].removeAll keys = [] := by simp [List.removeAll, h]
    rw [if_pos h, hnone]
    simp
  · have hone : [key].removeAll keys = [key] := by simp [List.removeAll, h]
    rw [if_neg h, hone]
    rfl

theorem lookup_reverse_snoc (writes : List (String × Value)) (key other : String) (v : Value) :
    (writes ++ [(key, v)]).reverse.lookup other =
      if other = key then some v else writes.reverse.lookup other := by
  rw [List.reverse_append, List.reverse_singleton, List.singleton_append, lookup_cons_eq]

theorem Overlaid.write (h : Overlaid writes named) (key : String) (v : Value) :
    Overlaid (writes ++ [(key, v)]) (write key v named) := by
  have hmem : key ∈ named.map (·.1) ↔ key ∈ writes.map (·.1) := by
    rw [h.order, List.mem_eraseDups]
  constructor
  case once =>
    rw [write_keys]
    by_cases hold : key ∈ named.map (·.1)
    · rw [if_pos hold]
      exact h.once
    · rw [if_neg hold, ← List.concat_eq_append]
      exact List.Nodup.concat hold h.once
  case order =>
    rw [write_keys, List.map_append, List.map_singleton, eraseDups_snoc, ← h.order]
    by_cases hold : key ∈ named.map (·.1)
    · rw [if_pos hold, if_pos (hmem.mp hold)]
    · rw [if_neg hold, if_neg fun hc => hold (hmem.mpr hc)]
  case values =>
    intro other
    rw [write_lookup, lookup_reverse_snoc, h.values]

theorem overlaid_self (h : (named.map (·.1)).Nodup) : Overlaid named named := by
  induction named using List.reverseRecOn with
  | nil => exact ⟨List.nodup_nil, rfl, fun _ => rfl⟩
  | append_singleton named n ih =>
    obtain ⟨key, v⟩ := n
    rw [List.map_append, List.map_singleton] at h
    obtain ⟨hnamed, -, hapart⟩ := List.nodup_append.mp h
    have hnew : key ∉ named.map (·.1) := by
      intro hmem
      exact hapart key hmem key List.mem_cons_self rfl
    have hwrite := (ih hnamed).write key v
    rwa [write_new hnew] at hwrite

theorem Overlaid.isSome (h : Overlaid writes named) (hkey : key ∈ writes.map (·.1)) :
    (named.lookup key).isSome := by
  have hmem : key ∈ named.map (·.1) := by
    rw [h.order, List.mem_eraseDups]
    exact hkey
  obtain ⟨n, hn, rfl⟩ := List.mem_map.mp hmem
  exact List.lookup_isSome_iff.mpr ⟨n, hn, beq_self_eq_true _⟩

theorem equals_of_spelled {k' : Value} (h : k.text? = some key) (h' : k'.text? = some other) :
    k.equals k' = (other == key) := by
  cases k with
  | text s =>
    cases h
    rw [Value.equals, h']
    rfl
  | severity s =>
    cases h
    rw [Value.equals, h']
    rfl
  | _ => cases h

theorem hashable_of_spelled (h : k.text? = some key) : k.hashable = true := by
  cases k with
  | text s => rfl
  | severity s => rfl
  | _ => cases h

theorem Spells.insert (h : Spells entries named) (hk : k.text? = some key) (v : Value) :
    Spells (Value.insert k v entries) (LogError.write key v named) := by
  induction h with
  | nil => exact .cons ⟨hk, rfl⟩ .nil
  | @cons e n entries named he hrest ih =>
    obtain ⟨k', w⟩ := e
    obtain ⟨other, w'⟩ := n
    obtain ⟨hk', rfl⟩ := he
    rw [Value.insert, LogError.write, equals_of_spelled hk hk']
    by_cases hsame : key = other
    · subst hsame
      rw [if_pos (beq_self_eq_true key), if_pos rfl]
      exact .cons ⟨hk', rfl⟩ hrest
    · rw [if_neg (by simpa using Ne.symm hsame), if_neg hsame]
      exact .cons ⟨hk', rfl⟩ ih

theorem overlay_overlaid (h : Spells entries named) (hw : Overlaid writes named)
    (added : List (String × Value)) :
    ∃ named', Spells (overlay entries added) named' ∧ Overlaid (writes ++ added) named' := by
  induction added generalizing entries named writes with
  | nil =>
    rw [List.append_nil]
    exact ⟨named, h, hw⟩
  | cons n added ih =>
    obtain ⟨key, v⟩ := n
    obtain ⟨named', hspells, hwrites⟩ := ih (h.insert (k := .text key) rfl v) (hw.write key v)
    rw [List.append_assoc, List.singleton_append] at hwrites
    exact ⟨named', hspells, hwrites⟩

theorem addContext_eq (e : LogError) (hk : k.text? = some key) (v : Value) :
    e.addContext k v = pure { e with context := Value.insert k v e.context } := by
  rw [addContext, if_pos (hashable_of_spelled hk)]

/-- Adding entries to an error one after the other comes to the same error, with the entries written
to its context. -/
theorem addContext_overlaid {e : LogError} {adds : List (Value × Value)}
    (h : Spells e.context named) (hw : Overlaid writes named) (hadds : Spells adds added) :
    ∃ context named', adds.foldlM (fun e w => e.addContext w.1 w.2) e =
        pure { e with context := context } ∧
      Spells context named' ∧ Overlaid (writes ++ added) named' := by
  induction hadds generalizing e named writes with
  | nil =>
    rw [List.append_nil]
    exact ⟨e.context, named, rfl, h, hw⟩
  | @cons w n adds added hwn hrest ih =>
    obtain ⟨k, v⟩ := w
    obtain ⟨key, v'⟩ := n
    obtain ⟨hk, rfl⟩ := hwn
    have hspells : Spells (Value.insert k v e.context) (LogError.write key v named) :=
      h.insert hk v
    obtain ⟨context, named', hfold, hspells', hwrites⟩ :=
      ih (e := { e with context := Value.insert k v e.context }) hspells (hw.write key v)
    rw [List.append_assoc, List.singleton_append] at hwrites
    refine ⟨context, named', ?_, hspells', hwrites⟩
    rw [List.foldlM_cons, addContext_eq e hk v, pure_bind, hfold]

end

end LeveledLog.LogError
