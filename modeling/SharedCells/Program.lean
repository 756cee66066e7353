/-
# SharedCells.Program -- the program as a whole

`Program.run` takes the arguments and the world the program runs in: the disk, the benchmark
program, and how the threads of a stress run interleave. It gives the exit code, what is
printed as an error, the disk afterwards, and how the benchmark program was started.

The exit code is 0 if all steps succeeded or help was asked for, 1 if a step failed, and 2
if the arguments were rejected.
-/

import SharedCells.Benchmark
import SharedCells.CommandLine
import SharedCells.Report.Generate
import SharedCells.Stress.Run

namespace SharedCells

/-- **`World`** -- what the program runs in. -/
structure World where
  disk : Disk
  /-- How the benchmark program ends, if there is one. -/
  child : Option ChildStatus
  /-- How the threads of a stress run interleave. -/
  schedule : StressConfig → StressSchedule
  /-- How long the checks of a stress run take. -/
  times : StressTimes

/-- **`Exit`** -- what the program leaves behind. -/
structure Exit where
  code : Nat
  /-- What is printed about a step that failed. -/
  stderr : Option String
  disk : Disk
  launch : Option Launch
  log : List Event

namespace Program

/-- The end of a program whose last step had this outcome. -/
def exitOf (launch : Option Launch) (earlier : List Event) (o : Outcome) : Exit :=
  match o.result with
  | .ok () => ⟨0, none, o.disk, launch, earlier ++ o.log⟩
  | .error failure => ⟨1, some failure.report, o.disk, launch, earlier ++ o.log⟩

/-- The command `bench`: runs the benchmarks unless only the report is wanted, and writes the
report. -/
def bench (quick reportOnly : Bool) (w : World) : Exit :=
  if reportOnly then exitOf none [] (Report.generate w.disk)
  else
    let benchmarks := Benchmark.run quick w.child
    match benchmarks.result with
    | .ok () => exitOf benchmarks.launch benchmarks.log (Report.generate w.disk)
    | .error failure =>
      exitOf benchmarks.launch benchmarks.log ⟨.error failure, w.disk, []⟩

/-- The command `stress`. -/
def stress (config : StressConfig) (w : World) : Exit :=
  exitOf none [] (Stress.run config (w.schedule config) w.times w.disk)

/-- **`run`** -- the program with its arguments. -/
def run (args : List String) (w : World) : Exit :=
  match CommandLine.parse args with
  | .error rejection => ⟨rejection.exitCode, none, w.disk, none, []⟩
  | .ok (.bench quick reportOnly) => bench quick reportOnly w
  | .ok (.stress config) => stress config w

end Program

end SharedCells
