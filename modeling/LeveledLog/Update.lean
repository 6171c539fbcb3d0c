/-!
Assignments that differ from another in one place.
-/

namespace LeveledLog

def update {κ α : Type} [DecidableEq κ] (f : κ → α) (k : κ) (a : α) : κ → α :=
  fun j => if j = k then a else f j

@[simp]
theorem update_same {κ α : Type} [DecidableEq κ] (f : κ → α) (k : κ) (a : α) :
    update f k a k = a := by simp [update]

theorem update_other {κ α : Type} [DecidableEq κ] (f : κ → α) {j k : κ} (a : α) (h : j ≠ k) :
    update f k a j = f j := by simp [update, h]

@[simp]
theorem update_update {κ α : Type} [DecidableEq κ] (f : κ → α) (k : κ) (a b : α) :
    update (update f k a) k b = update f k b := by
  funext j
  by_cases h : j = k <;> simp [update, h]

theorem update_eq_self {κ α : Type} [DecidableEq κ] {f : κ → α} {k : κ} {a : α} (h : f k = a) :
    update f k a = f := by
  funext j
  by_cases hj : j = k
  · subst hj; simp [update, h]
  · simp [update, hj]

end LeveledLog
