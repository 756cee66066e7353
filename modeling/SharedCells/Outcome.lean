/-
# SharedCells.Outcome -- what a command leaves behind
-/

import SharedCells.Disk.Basic
import SharedCells.Event
import SharedCells.Failure

namespace SharedCells

/-- **`Outcome`** -- whether a command succeeded, the disk afterwards, and what it logged. -/
structure Outcome where
  result : Except Failure Unit
  disk : Disk
  log : List Event

/-- Did the command succeed? -/
def Outcome.succeeded (o : Outcome) : Bool := o.result.isOk

end SharedCells
