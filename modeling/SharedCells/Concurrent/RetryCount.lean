/-
# SharedCells.Concurrent.RetryCount -- adding up the failed attempts of a pool

Each worker of a pool of words counts its own failed attempts. Once it has made all its
changes it adds that count to a second cell, in one step of its own. When all workers have
done so the second cell holds the number of all failed attempts, modulo its width.
-/

import SharedCells.Concurrent.Pool

namespace SharedCells

/-- **`RetryCount`** -- a pool, the cell that collects the counts, and the workers that have
added theirs. -/
structure RetryCount where
  pool : Pool .word
  retries : WordCell
  reported : List Nat

namespace RetryCount

/-- Before the first step nothing is collected. -/
def start (pool : Pool .word) : RetryCount := ⟨pool, ⟨0, 0⟩, []⟩

/-- **`step`** -- one move: a worker that is finished adds its count, once; any other takes
its step in the pool. The count wraps around, as it does in a build without overflow checks; a
build with them stops at the failed attempt that does not fit. -/
def step (s : RetryCount) (move : Move) : RetryCount :=
  match s.pool.workers[move.worker]? with
  | none => s
  | some x =>
    if x.finished then
      if move.worker ∈ s.reported then s
      else
        let (_, retries) := s.retries.fetchAdd (BitVec.ofNat _ x.misses)
        ⟨s.pool, retries, move.worker :: s.reported⟩
    else { s with pool := s.pool.step move }

/-- **`run`** -- the moves of a schedule, in order. -/
def run (s : RetryCount) (schedule : List Move) : RetryCount := schedule.foldl step s

/-- Has every worker made its changes and added its count? -/
def finished (s : RetryCount) : Bool :=
  s.pool.finished && (List.range s.pool.workers.length).all (· ∈ s.reported)

/-- **`inTurn`** -- the schedule that runs the workers one after another, each to its end. -/
def inTurn (jobs : List (List (Change .word))) : List Move :=
  jobs.zipIdx.flatMap fun (job, i) =>
    List.replicate (Numeral.total (job.map Pool.movesOf) + 1) ⟨i, false⟩

end RetryCount

end SharedCells
