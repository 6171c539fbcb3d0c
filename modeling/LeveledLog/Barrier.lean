/-!
A barrier goes through a hand-off in the place of an item. Whoever waits for it goes on once it is
released, and it stays released.
-/

namespace LeveledLog

structure Barrier where
  released : Bool
  deriving DecidableEq, Repr

namespace Barrier

def fresh : Barrier := ⟨false⟩

def release (_ : Barrier) : Barrier := ⟨true⟩

def passes (b : Barrier) : Bool := b.released

end Barrier

end LeveledLog
