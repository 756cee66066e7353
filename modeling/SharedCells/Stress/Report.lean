/-
# SharedCells.Stress.Report -- the outcome of a stress run, as a document

A stress run makes three checks. Each has one exact expected value, and passes if that value
was observed. The report lists the run's configuration and its checks; written as JSON it
names the retries only of a check that counts them.
-/

import SharedCells.Disk.Name
import SharedCells.Json.Basic
import SharedCells.Numeral
import SharedCells.Width

namespace SharedCells

/-- **`StressConfig`** -- what to run. -/
structure StressConfig where
  /-- Workers of the two counter checks. -/
  threads : Value .word
  /-- Increments per worker. -/
  iterations : Value .word
  /-- Rounds of the handshake check. -/
  rounds : Value .word
  /-- Where to write the report. -/
  json : Option Path

/-- **`CheckName`** -- the three checks. -/
inductive CheckName where
  | fetchAddCounter
  | weakSwapCounter
  | handshake
  deriving DecidableEq

/-- The name shown for a check. -/
def CheckName.text : CheckName → String
  | fetchAddCounter => "fetch_add_counter"
  | weakSwapCounter => "weak_cas_counter"
  | handshake => "release_acquire_ping_pong"

/-- **`Elapsed`** -- a measured time in nanoseconds. -/
structure Elapsed where
  nanoseconds : Nat

/-- **`CheckReport`** -- the outcome of one check. -/
structure CheckReport where
  name : CheckName
  expected : Value .word
  observed : Value .word
  passed : Bool
  elapsed : Elapsed
  /-- Failed attempts of the weak compare-and-swap, if the check counts them. -/
  retries : Option (Value .word)

/-- **`StressReport`** -- the outcome of a run. -/
structure StressReport where
  threads : Value .word
  iterations : Value .word
  rounds : Value .word
  checks : List CheckReport

/-- **`Figure`** -- the numbers in a stress report. -/
inductive Figure where
  | count (n : Value .word)
  /-- A time, written in milliseconds. -/
  | time (t : Elapsed)

namespace Figure

/-- The digits without the zeros at their end. -/
def trimZeros (cs : List Char) : List Char := (cs.reverse.dropWhile (· = '0')).reverse

/-- A time in milliseconds, with at least one decimal and no needless ones. The decimal is exact: a
millionth of the nanoseconds. The program computes this figure as a binary64 number, from the time
in seconds, and may write other last digits; nothing here depends on them. -/
def millisText (t : Elapsed) : List Char :=
  let fraction := Numeral.decimal (t.nanoseconds % 1000000)
  let places := trimZeros (List.replicate (6 - fraction.length) '0' ++ fraction)
  Numeral.decimal (t.nanoseconds / 1000000) ++ '.' :: (if places = [] then ['0'] else places)

/-- A number of a report written out. -/
def text : Figure → List Char
  | count n => Numeral.decimal n.toNat
  | time t => millisText t

end Figure

/-- The member for the retries, if they were counted. -/
def CheckReport.retriesMember (c : CheckReport) : List (String × Json Figure) :=
  match c.retries with
  | none => []
  | some n => [("cas_retries", .number (.count n))]

/-- A check as a document. -/
def CheckReport.toJson (c : CheckReport) : Json Figure :=
  .object ([("name", .string c.name.text), ("expected", .number (.count c.expected)),
    ("observed", .number (.count c.observed)), ("passed", .bool c.passed),
    ("elapsed", .number (.time c.elapsed))] ++ c.retriesMember)

/-- A report as a document. -/
def StressReport.toJson (r : StressReport) : Json Figure :=
  .object [("threads", .number (.count r.threads)), ("iterations", .number (.count r.iterations)),
    ("rounds", .number (.count r.rounds)), ("checks", .array (r.checks.map CheckReport.toJson))]

/-- **`StressReport.text`** -- the report as it is written to a file. -/
def StressReport.text (r : StressReport) : String :=
  String.ofList (r.toJson.pretty Figure.text 0)

end SharedCells
