/-
# SharedCells.Concurrent.Election -- many callers, one flag

Every caller tries once to swap a byte flag from an expected value to a new one, in in/out
form. A caller that succeeds then adds one to the cell that counts the winners. The callers
move by single cell operations, in any order.
-/

import SharedCells.Cell

namespace SharedCells

/-- **`Stage`** -- how far a caller has come. -/
inductive Stage where
  | waiting
  /-- Its swap succeeded, and it has still to be counted. -/
  | elected
  | counted
  | refused
  deriving DecidableEq

/-- **`Caller`** -- one caller, with what its `expected` holds. -/
structure Caller where
  stage : Stage
  expected : Value .byte

/-- **`Election`** -- the flag, the count of winners, and the callers. -/
structure Election where
  flag : ByteCell
  winners : WordCell
  callers : List Caller

namespace Caller

/-- Did the caller's swap succeed? -/
def won (c : Caller) : Bool := c.stage = .elected ∨ c.stage = .counted

/-- Has the caller nothing left to do? -/
def finished (c : Caller) : Bool := c.stage = .counted ∨ c.stage = .refused

end Caller

namespace Election

/-- **`start`** -- an election of `n` callers that all expect the same value. -/
def start (initial expected : Value .byte) (n : Nat) : Election :=
  ⟨⟨0, initial⟩, ⟨8, 0⟩, List.replicate n ⟨.waiting, expected⟩⟩

/-- **`step`** -- the next cell operation of the caller with that number, if it has one. -/
def step (new : Value .byte) (s : Election) (i : Nat) : Election :=
  match s.callers[i]? with
  | some ⟨.waiting, expected⟩ =>
    let (swap, flag) := ByteCell.trySwapAcquire s.flag expected new
    let stage := if swap.done then Stage.elected else .refused
    { s with flag, callers := s.callers.set i ⟨stage, swap.expected⟩ }
  | some ⟨.elected, expected⟩ =>
    let (_, winners) := s.winners.fetchAdd 1
    { s with winners, callers := s.callers.set i ⟨.counted, expected⟩ }
  | _ => s

/-- **`run`** -- the callers move in the order of the list. -/
def run (new : Value .byte) (s : Election) (schedule : List Nat) : Election :=
  schedule.foldl (step new) s

/-- Have all callers finished? -/
def finished (s : Election) : Bool := s.callers.all Caller.finished

/-- What the callers' `expected` hold, in ascending order. -/
def expectedOut (s : Election) : List Nat :=
  (s.callers.map fun c => c.expected.toNat).mergeSort (· ≤ ·)

/-- **`inTurn`** -- the schedule that runs the callers one after another. -/
def inTurn (n : Nat) : List Nat := (List.range n).flatMap fun i => [i, i]

end Election

end SharedCells
