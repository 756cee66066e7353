/-
# SharedCells.Benchmark -- running the benchmarks

The benchmarks are run by another program, `cargo`, which is started with fixed settings and
arguments. Whether it is there, and how it ends, is an input.
-/

import SharedCells.Event
import SharedCells.Failure

namespace SharedCells

/-- **`Launch`** -- one start of the benchmark program. -/
structure Launch where
  arguments : List String
  /-- Settings of the environment that the program is started with. -/
  environment : List (String × String)
  deriving DecidableEq

/-- **`BenchmarkRun`** -- whether the benchmarks succeeded, the start of the program if there
was one, and what was logged. -/
structure BenchmarkRun where
  result : Except Failure Unit
  launch : Option Launch
  log : List Event

namespace Benchmark

/-- The benchmarks' name. -/
def name : String := "cells_benchmark"

/-- Arguments that make the run short. -/
def quickArguments : List String :=
  ["--measurement-time", "0.1", "--noplot", "--sample-size", "10"]

/-- How the benchmark program is started. -/
def launch (quick : Bool) : Launch where
  arguments := ["bench", "--bench", name, "--"] ++ (if quick then quickArguments else [])
  environment :=
    [("CARGO_INCREMENTAL", "0"), ("RUSTFLAGS", "-C opt-level=3 -C codegen-units=1")]

/-- What is logged at the start. -/
def started (quick : Bool) : Event :=
  ⟨.info, "running benchmarks",
    [("bench", "\"" ++ name ++ "\""), ("quick", if quick then "true" else "false")]⟩

/-- What is logged after a success. -/
def ended : Event := ⟨.info, "benchmarks finished", []⟩

/-- **`run`** -- runs the benchmarks; `child` is how the program ends, or `none` if there is no
such program. -/
def run (quick : Bool) (child : Option ChildStatus) : BenchmarkRun :=
  match child with
  | none => ⟨.error (.launching name .notFound), none, [started quick]⟩
  | some status =>
    if status.success then ⟨.ok (), some (launch quick), [started quick, ended]⟩
    else ⟨.error (.benchFailed name status), some (launch quick), [started quick]⟩

end Benchmark

end SharedCells
