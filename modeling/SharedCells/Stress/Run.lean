/-
# SharedCells.Stress.Run -- the stress run

Three checks, one after another, each on cells of its own:

* every worker adds one to a counter, as often as configured;
* the same in retry loops on the weak compare-and-swap, counting the failed attempts;
* a writer and a reader hand a slot to and fro.

How the threads of a check interleave is an input of the run, and so are the times
measured. The checks are logged and, if asked for, written to a file; a failed check fails
the run after that.
-/

import SharedCells.Concurrent.Handshake
import SharedCells.Concurrent.RetryCount
import SharedCells.Disk.Path
import SharedCells.Outcome
import SharedCells.Stress.Report

namespace SharedCells

/-- **`StressSchedule`** -- how the threads of each check interleave. -/
structure StressSchedule where
  adds : List Move
  swaps : List Move
  turns : List Turn

/-- **`StressTimes`** -- how long each check took. -/
structure StressTimes where
  adds : Elapsed
  swaps : Elapsed
  turns : Elapsed

namespace StressTimes

/-- No time at all. -/
def zero : StressTimes := ⟨⟨0⟩, ⟨0⟩, ⟨0⟩⟩

end StressTimes

namespace StressConfig

/-- Every worker adds one, `iterations` times. -/
def jobs (config : StressConfig) (kind : ChangeKind) : List (List (Change .word)) :=
  List.replicate config.threads.toNat
    (List.replicate config.iterations.toNat ⟨kind, 1, .acqRel⟩)

/-- **`inTurn`** -- the schedule in which the threads of each check run one after another. -/
def inTurn (config : StressConfig) : StressSchedule where
  adds := Pool.inTurn (config.jobs .add)
  swaps := RetryCount.inTurn (config.jobs .weak)
  turns := Handshake.inTurn config.rounds.toNat

/-- What the two counters should hold in the end. The product wraps around, as it does in a build
without overflow checks; a build with them stops at a product that does not fit. -/
def total (config : StressConfig) : Value .word := config.threads * config.iterations

/-- The counter that is changed by fetches, after the schedule. -/
def adding (config : StressConfig) (schedule : List Move) : Pool .word :=
  (Pool.start ⟨0, 0⟩ (config.jobs .add)).run schedule

/-- The counter that is changed by weak compare-and-swaps, after the schedule. -/
def swapping (config : StressConfig) (schedule : List Move) : RetryCount :=
  (RetryCount.start (Pool.start ⟨0, 0⟩ (config.jobs .weak))).run schedule

/-- The handshake, after the schedule. -/
def shaking (config : StressConfig) (schedule : List Turn) : Handshake :=
  (Handshake.start config.rounds.toNat).run config.rounds.toNat schedule

/-- Do the threads of every check finish under this schedule? -/
def finishes (config : StressConfig) (schedule : StressSchedule) : Bool :=
  (config.adding schedule.adds).finished && (config.swapping schedule.swaps).finished
    && (config.shaking schedule.turns).finished

end StressConfig

/-- A check passes if it observed what it expected. -/
def CheckReport.of (name : CheckName) (expected observed : Value .word) (elapsed : Elapsed)
    (retries : Option (Value .word)) : CheckReport :=
  ⟨name, expected, observed, observed == expected, elapsed, retries⟩

/-- **`StressConfig.checks`** -- the three checks in order. -/
def StressConfig.checks (config : StressConfig) (schedule : StressSchedule)
    (times : StressTimes) : List CheckReport :=
  let swapped := config.swapping schedule.swaps
  [.of .fetchAddCounter config.total (WordCell.loadSeqCst (config.adding schedule.adds).cell)
      times.adds none,
    .of .weakSwapCounter config.total (WordCell.loadSeqCst swapped.pool.cell)
      times.swaps (some swapped.retries.loadSeqCst),
    .of .handshake config.rounds (config.shaking schedule.turns).observed times.turns none]

/-- The name tells the checks of a run apart. -/
theorem StressConfig.check_eq_of_name {config : StressConfig} {schedule : StressSchedule}
    {times : StressTimes} {check check' : CheckReport} (hmem : check ∈ config.checks schedule times)
    (hmem' : check' ∈ config.checks schedule times) (hname : check.name = check'.name) :
    check = check' := by
  simp only [checks, List.mem_cons, List.not_mem_nil, or_false] at hmem hmem'
  rcases hmem with rfl | rfl | rfl <;> rcases hmem' with rfl | rfl | rfl
  all_goals first | rfl | exact absurd hname (by simp [CheckReport.of])

/-- What is logged when a check is finished. -/
def CheckReport.event (c : CheckReport) : Event :=
  ⟨.info, "check finished",
    [("check", "\"" ++ c.name.text ++ "\""), ("expected", c.expected.toNat.repr),
      ("observed", c.observed.toNat.repr), ("passed", if c.passed then "true" else "false")]⟩

namespace Stress

/-- What is logged at the start. -/
def started (config : StressConfig) : Event :=
  ⟨.info, "starting stress run",
    [("threads", config.threads.toNat.repr), ("iterations", config.iterations.toNat.repr),
      ("rounds", config.rounds.toNat.repr)]⟩

/-- What is logged when the weak compare-and-swaps are through. -/
def retriesCounted : Event := ⟨.debug, "weak CAS retries", []⟩

/-- The checks that failed decide on the run. -/
def verdict (checks : List CheckReport) : Except Failure Unit :=
  match checks.filter (!·.passed) with
  | [] => .ok ()
  | failed => .error (.checksFailed (failed.map (·.name.text)))

/-- **`run`** -- makes the checks, logs them, and writes the report if it is asked for. -/
def run (config : StressConfig) (schedule : StressSchedule) (times : StressTimes) (d : Disk) :
    Outcome :=
  if config.threads = 0 then ⟨.error .noThreads, d, []⟩
  else
    let checks := config.checks schedule times
    let log := started config :: retriesCounted :: checks.map CheckReport.event
    match config.json with
    | none => ⟨verdict checks, d, log⟩
    | some path =>
      let report : StressReport := ⟨config.threads, config.iterations, config.rounds, checks⟩
      match d.writeText path report.text with
      | .error e => ⟨.error (.writing path e), d, log⟩
      | .ok d =>
        ⟨verdict checks, d, log ++ [⟨.info, "report written", [("path", path.shown)]⟩]⟩

end Stress

end SharedCells
