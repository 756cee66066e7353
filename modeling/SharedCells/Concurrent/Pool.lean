/-
# SharedCells.Concurrent.Pool -- workers that change one cell

A pool is a cell with any number of workers. Each worker has a list of changes to make: it
adds an amount to the cell, or subtracts one, with wraparound. A fetch makes a change in a
single step. The other kinds make it in a retry loop: one step loads the value, every
further step is one compare-and-swap from the value in hand to that value plus the amount,
and an attempt that fails puts the value it found in hand.

The pool moves by single cell operations. A schedule lists, for each move, which worker
takes it and whether the platform spoils the attempt; so a schedule is an interleaving
together with a pattern of spurious failures, and every interleaving is a schedule.

Completed changes are recorded in the order in which they took effect.
-/

import SharedCells.Cell
import SharedCells.Numeral

namespace SharedCells

/-- **`ChangeKind`** -- the ways to change a cell by an amount. -/
inductive ChangeKind where
  | add
  | sub
  /-- A retry loop on the weak compare-and-swap in in/out form. -/
  | weak
  /-- A retry loop on the strong compare-and-swap in in/out form. -/
  | strong
  /-- A retry loop on the strong compare-and-swap in result form. -/
  | result
  deriving DecidableEq

/-- **`Change w`** -- one change that a worker makes. -/
structure Change (w : Width) where
  kind : ChangeKind
  amount : Value w
  order : SwapOrder

/-- **`Worker w`** -- the state of one worker. -/
structure Worker (w : Width) where
  /-- The changes still to make; the first one may be under way. -/
  todo : List (Change w)
  /-- The value in hand of the retry loop under way. -/
  expected : Option (Value w)
  /-- Failed attempts that found another value than the one expected. -/
  stale : Nat
  /-- Failed attempts that found the value expected. -/
  spurious : Nat

/-- **`Ticket w`** -- a completed change with the value that the cell held before it. -/
structure Ticket (w : Width) where
  worker : Nat
  change : Change w
  previous : Value w

/-- **`Pool w`** -- a cell, its workers, and the completed changes, latest first. -/
structure Pool (w : Width) where
  cell : Cell w
  workers : List (Worker w)
  log : List (Ticket w)

/-- **`Move`** -- which worker takes the next step, and whether its attempt is spoiled. -/
structure Move where
  worker : Nat
  spurious : Bool

variable {w : Width}

/-- **`Change.delta`** -- what the change adds to the cell. -/
def Change.delta (c : Change w) : Value w :=
  match c.kind with
  | .sub => -c.amount
  | _ => c.amount

/-- One attempt of a retry loop: whether it succeeded, with the value in hand afterwards. -/
def Change.attempt (c : Change w) (cell : Cell w) (expected : Value w) (spurious : Bool) :
    Swap w × Cell w :=
  match c.kind with
  | .weak => cell.trySwap .weak expected (expected + c.amount) c.order spurious
  | .result =>
    match cell.compareExchange .strong expected (expected + c.amount) c.order spurious with
    | (.swapped previous, after) => (⟨true, previous⟩, after)
    | (.refused actual, after) => (⟨false, actual⟩, after)
  | _ => cell.trySwap .strong expected (expected + c.amount) c.order spurious

namespace Worker

/-- A worker before its first step. -/
def start (todo : List (Change w)) : Worker w := ⟨todo, none, 0, 0⟩

/-- Has the worker made all its changes? -/
def finished (x : Worker w) : Bool := x.todo.isEmpty

/-- All failed attempts so far. -/
def misses (x : Worker w) : Nat := x.stale + x.spurious

/-- The worker after the change under way is complete. -/
def complete (x : Worker w) : Worker w := { x with todo := x.todo.tail, expected := none }

/-- The worker after an attempt that expected one value and found another, or the same. -/
def miss (x : Worker w) (expected found : Value w) : Worker w :=
  if found = expected then { x with expected := some found, spurious := x.spurious + 1 }
  else { x with expected := some found, stale := x.stale + 1 }

/-- **`step`** -- the worker's next cell operation: the value reported by the change that it
completes, if it does, the worker, and the cell. -/
def step (x : Worker w) (cell : Cell w) (spurious : Bool) :
    Option (Change w × Value w) × Worker w × Cell w :=
  match x.todo with
  | [] => (none, x, cell)
  | change :: _ =>
    match change.kind, x.expected with
    | .add, _ =>
      let (previous, after) := cell.fetchAdd change.amount
      (some (change, previous), x.complete, after)
    | .sub, _ =>
      let (previous, after) := cell.fetchSub change.amount
      (some (change, previous), x.complete, after)
    | _, none => (none, { x with expected := some (cell.load .relaxed) }, cell)
    | _, some expected =>
      let (swap, after) := change.attempt cell expected spurious
      if swap.done then (some (change, expected), x.complete, after)
      else (none, x.miss expected swap.expected, after)

end Worker

namespace Pool

/-- **`start`** -- a pool before its first step: the cell, and what each worker has to do. -/
def start (cell : Cell w) (jobs : List (List (Change w))) : Pool w :=
  ⟨cell, jobs.map Worker.start, []⟩

/-- **`step`** -- one move. A move of a worker that is not there, or is finished, does
nothing. -/
def step (p : Pool w) (move : Move) : Pool w :=
  match p.workers[move.worker]? with
  | none => p
  | some x =>
    let (completed, x', cell) := x.step p.cell move.spurious
    let log := match completed with
      | none => p.log
      | some (change, previous) => ⟨move.worker, change, previous⟩ :: p.log
    ⟨cell, p.workers.set move.worker x', log⟩

/-- **`run`** -- the moves of a schedule, in order. -/
def run (p : Pool w) (schedule : List Move) : Pool w := schedule.foldl step p

/-- Have all workers made all their changes? -/
def finished (p : Pool w) : Bool := p.workers.all Worker.finished

/-- All failed attempts so far, of all workers. -/
def misses (p : Pool w) : Nat := Numeral.total (p.workers.map Worker.misses)

/-- The values reported by the completed changes, first change first. -/
def tickets (p : Pool w) : List (Value w) := (p.log.map Ticket.previous).reverse

/-- How many moves a worker needs for a change if nobody disturbs it. -/
def movesOf (c : Change w) : Nat :=
  match c.kind with
  | .add | .sub => 1
  | _ => 2

/-- **`inTurn`** -- the schedule that runs the workers one after another, each to its end. -/
def inTurn (jobs : List (List (Change w))) : List Move :=
  jobs.zipIdx.flatMap fun (job, i) => List.replicate (Numeral.total (job.map movesOf)) ⟨i, false⟩

end Pool

end SharedCells
