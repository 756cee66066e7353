/-
# SharedCells.Access -- what the platform does to a shared value

The platform offers five indivisible accesses: load, store, compare-and-exchange, and
fetch-and-add or -subtract. Each one sees the value present and may replace it. An order
limits what other threads may observe around the access; it never changes what the access
itself sees or leaves behind, and no equation below depends on one.

A weak exchange may fail although the values match. Whether it does is not in the program's
hands: it is an input of `Access.perform`, the flag `spurious`.
-/

import SharedCells.Width
import SharedCells.Order

namespace SharedCells

/-- **`Strength`** -- may an exchange fail although the values match? -/
inductive Strength where
  | weak
  | strong
  deriving DecidableEq

/-- **`Access w`** -- one indivisible request to the platform. -/
inductive Access (w : Width) where
  | load (order : MemoryOrder)
  | store (value : Value w) (order : MemoryOrder)
  | exchange (strength : Strength) (current new : Value w) (success failure : MemoryOrder)
  | fetchAdd (amount : Value w) (order : MemoryOrder)
  | fetchSub (amount : Value w) (order : MemoryOrder)

/-- **`Observation w`** -- what an access reports: the value it saw, and whether it went
through. Only an exchange can fail to. -/
structure Observation (w : Width) where
  seen : Value w
  done : Bool

namespace Access

variable {w : Width}

/-- Does an exchange of this strength happen on a cell holding `present`? -/
def exchanges (strength : Strength) (spurious : Bool) (present current : Value w) : Bool :=
  present == current && !(strength == .weak && spurious)

/-- **`perform`** -- an access of a cell that holds `present`: the report, and the value the
cell holds afterwards. -/
def perform (spurious : Bool) (present : Value w) : Access w → Observation w × Value w
  | load _ => (⟨present, true⟩, present)
  | store value _ => (⟨present, true⟩, value)
  | exchange strength current new _ _ =>
    if exchanges strength spurious present current then (⟨present, true⟩, new)
    else (⟨present, false⟩, present)
  | fetchAdd amount _ => (⟨present, true⟩, present + amount)
  | fetchSub amount _ => (⟨present, true⟩, present - amount)

/-- Every access reports the value that was there before it. -/
theorem perform_seen (spurious : Bool) (present : Value w) (a : Access w) :
    (a.perform spurious present).1.seen = present := by
  cases a <;> simp only [perform]
  split <;> rfl

theorem exchanges_strong (spurious : Bool) (present current : Value w) :
    exchanges .strong spurious present current = (present == current) := by
  simp [exchanges]

theorem exchanges_weak (spurious : Bool) (present current : Value w) :
    exchanges .weak spurious present current = (present == current && !spurious) := by
  simp [exchanges]

end Access

end SharedCells
