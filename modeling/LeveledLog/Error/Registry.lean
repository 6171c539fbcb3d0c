import LeveledLog.Error

/-!
The registry of error categories and codes. Each name and each code is bound to one object, made
when it is first asked for, and every later request gets that object. A code's category is the
registry's own object for the category's name.
-/

namespace LeveledLog

/-- A category object; two are the same object only if their numbers are equal. -/
structure CategoryObject where
  id : Nat
  name : String
  deriving DecidableEq, Repr

structure CodeObject where
  id : Nat
  code : String
  category : CategoryObject
  deriving DecidableEq, Repr

/-- All objects made so far, by name and by code; `next` is the number of the next one. -/
structure Registry where
  categories : List (String × CategoryObject)
  codes : List (String × CodeObject)
  next : Nat
  deriving DecidableEq, Repr

namespace Registry

def empty : Registry := ⟨[], [], 0⟩

def getCategory (r : Registry) (name : String) : Registry × CategoryObject :=
  match r.categories.lookup name with
  | some c => (r, c)
  | none =>
    let c : CategoryObject := ⟨r.next, name⟩
    ({ r with categories := r.categories ++ [(name, c)], next := r.next + 1 }, c)

def getCode (r : Registry) (code category : String) : Registry × CodeObject :=
  match r.codes.lookup code with
  | some c => (r, c)
  | none =>
    let (r, cat) := r.getCategory category
    let c : CodeObject := ⟨r.next, code, cat⟩
    ({ r with codes := r.codes ++ [(code, c)], next := r.next + 1 }, c)

def lookupCode (r : Registry) (code : String) : Option CodeObject := r.codes.lookup code

def ownClasses : List ErrorClass := [.open, .connect, .panic, .config]

def initial : Registry :=
  ownClasses.foldl
    (fun r c =>
      match c.code? with
      | some code => (r.getCode code.code code.category).1
      | none => r)
    (empty.getCategory ErrorClass.ownCategory).1

end Registry

end LeveledLog
