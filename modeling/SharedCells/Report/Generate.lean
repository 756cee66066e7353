/-
# SharedCells.Report.Generate -- the report on a benchmark run

`Report.generate` collects the measurements below `target/criterion` in the order in which
they are found and writes their rates to `benchmark_results/report.md`. Without any
benchmark output it warns and writes nothing. The first measurement that cannot be used
ends the command before anything is written.
-/

import SharedCells.Outcome
import SharedCells.Report.Sample
import SharedCells.Report.Table

namespace SharedCells.Report

/-- Where the benchmarks leave their results. -/
def source : List Name := ["target", "criterion"]

/-- The folder of the report. -/
def folder : Name := "benchmark_results"

/-- Where the report is written. -/
def target : List Name := [folder, "report.md"]

/-- Adds the rate of a measurement to the table, if it shows one. -/
def add (table : Table) (s : Sample) : Except Failure Table := do
  match ← s.rate? with
  | none => .ok table
  | some rate => .ok (table.insert ⟨s.group, s.function, rate⟩)

/-- **`collect`** -- the table of all measurements below the entries of `source`. -/
def collect (entries : List (Name × Node)) : Except Failure Table :=
  (Sample.below source.reverse entries entries).foldlM add []

/-- Writes the report into its folder, which is made if it is missing. -/
def save (d : Disk) (table : Table) : Outcome :=
  match d.ensureFolder folder with
  | .error e => ⟨.error (.creating (.join [folder]) e), d, []⟩
  | .ok d =>
    match d.write (d.here ++ target) (String.ofList table.text).toUTF8 with
    | .error e => ⟨.error (.writing (.join target) e), d, []⟩
    | .ok d => ⟨.ok (), d, [⟨.info, "report written", [("path", (Path.join target).shown)]⟩]⟩

/-- **`generate`** -- collects the measurements and writes the report. -/
def generate (d : Disk) : Outcome :=
  let path := Path.join source
  match d.find? source with
  | none => ⟨.ok (), d, [⟨.warn, "no criterion output found", [("path", path.shown)]⟩]⟩
  | some (.file _) => ⟨.error (.reading path .notADirectory), d, []⟩
  | some (.folder entries) =>
    match collect entries with
    | .error failure => ⟨.error failure, d, []⟩
    | .ok table => save d table

end SharedCells.Report
