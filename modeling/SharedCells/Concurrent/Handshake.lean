/-
# SharedCells.Concurrent.Handshake -- a slot that two threads own in turn

A writer and a reader share a slot of ordinary memory. A byte flag says whose turn it is: the
writer may touch the slot while the flag is 0, the reader while it is 1. In round `r` the
writer waits for 0, writes `r` into the slot and sets the flag to 1; the reader waits for 1,
reads the slot, counts the round if it found `r`, and sets the flag to 0.

A reader that finds anything else sets `aborted` and returns, and a writer that waits gives
up once it sees that. The two move by single accesses, in any order. What the reader's
access of the slot finds is an input of its turn: the slot's content, unless the turn names
a stale or torn value in its place.
-/

import SharedCells.Cell

namespace SharedCells

/-- **`WriterPoint`** -- the access that the writer makes next. -/
inductive WriterPoint where
  | testFlag
  | testAborted
  | write
  | publish
  | returned
  deriving DecidableEq

/-- **`ReaderPoint`** -- the access that the reader makes next. -/
inductive ReaderPoint where
  | testFlag
  | read
  | count
  | release
  | abort
  | returned
  deriving DecidableEq

/-- **`Handshake`** -- the shared cells, the slot, and both threads. -/
structure Handshake where
  flag : ByteCell
  aborted : ByteCell
  matched : WordCell
  slot : Value .word
  writer : WriterPoint
  /-- The writer's round; rounds count from 1. -/
  writerRound : Nat
  reader : ReaderPoint
  /-- The reader's round. -/
  readerRound : Nat

/-- **`Turn`** -- who moves. A reader's turn may name what its access of the slot finds. -/
inductive Turn where
  | writer
  | reader (found : Option (Value .word))

namespace Handshake

/-- **`start`** -- both threads before round 1; with no rounds both have returned. -/
def start (rounds : Nat) : Handshake where
  flag := ⟨0, 0⟩
  aborted := ⟨64, 0⟩
  matched := ⟨128, 0⟩
  slot := 0
  writer := if rounds = 0 then .returned else .testFlag
  writerRound := 1
  reader := if rounds = 0 then .returned else .testFlag
  readerRound := 1

/-- The writer goes on to its next round, or returns after the last one. -/
def nextWrite (rounds : Nat) (s : Handshake) : Handshake :=
  if s.writerRound < rounds then { s with writer := .testFlag, writerRound := s.writerRound + 1 }
  else { s with writer := .returned }

/-- The reader goes on to its next round, or returns after the last one. -/
def nextRead (rounds : Nat) (s : Handshake) : Handshake :=
  if s.readerRound < rounds then { s with reader := .testFlag, readerRound := s.readerRound + 1 }
  else { s with reader := .returned }

/-- The writer's next access. -/
def stepWriter (rounds : Nat) (s : Handshake) : Handshake :=
  match s.writer with
  | .testFlag =>
    if ByteCell.loadAcquire s.flag ≠ 0 then { s with writer := .testAborted }
    else { s with writer := .write }
  | .testAborted =>
    if ByteCell.loadRelaxed s.aborted ≠ 0 then { s with writer := .returned }
    else { s with writer := .testFlag }
  | .write => { s with slot := BitVec.ofNat _ s.writerRound, writer := .publish }
  | .publish => nextWrite rounds { s with flag := ByteCell.storeRelease s.flag 1 }
  | .returned => s

/-- The reader's next access. -/
def stepReader (rounds : Nat) (s : Handshake) (found : Option (Value .word)) : Handshake :=
  match s.reader with
  | .testFlag =>
    if ByteCell.loadAcquire s.flag ≠ 1 then s else { s with reader := .read }
  | .read =>
    if found.getD s.slot = BitVec.ofNat _ s.readerRound then { s with reader := .count }
    else { s with reader := .abort }
  | .count => { s with matched := (s.matched.fetchAdd 1).2, reader := .release }
  | .release => nextRead rounds { s with flag := ByteCell.storeRelease s.flag 0 }
  | .abort => { s with aborted := ByteCell.storeRelaxed s.aborted 1, reader := .returned }
  | .returned => s

/-- **`step`** -- one access of the thread whose turn it is. -/
def step (rounds : Nat) (s : Handshake) : Turn → Handshake
  | .writer => s.stepWriter rounds
  | .reader found => s.stepReader rounds found

/-- **`run`** -- the turns of a schedule, in order. -/
def run (rounds : Nat) (s : Handshake) (schedule : List Turn) : Handshake :=
  schedule.foldl (step rounds) s

/-- Have both threads returned? -/
def finished (s : Handshake) : Bool := s.writer = .returned ∧ s.reader = .returned

/-- The rounds that the reader counted. -/
def observed (s : Handshake) : Value .word := s.matched.loadSeqCst

/-- **`inTurn`** -- the schedule in which no thread ever waits. -/
def inTurn (rounds : Nat) : List Turn :=
  (List.replicate rounds (List.replicate 3 .writer ++ List.replicate 4 (.reader none))).flatten

end Handshake

end SharedCells
