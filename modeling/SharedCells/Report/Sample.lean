/-
# SharedCells.Report.Sample -- measurements left behind by a benchmark run

The benchmarks leave their results below `target/criterion`. A measurement is a file named
`estimates.json` in a folder named `new`; the folder above names the function measured, and
the one above that its group. Groups and functions are texts, so a folder whose name is no text
names neither, and a file with such a folder in one of these two places is no measurement. Folders
named `report` hold something else and count neither as a group nor as a function.

A measurement gives the time of one pass in nanoseconds, its mean point estimate. The file
`benchmark.json` beside it may say how many elements a pass handles; where that file is
missing, is no text, or says nothing of elements, a pass handles one.
-/

import SharedCells.Failure
import SharedCells.Json.Reader
import SharedCells.Rate

namespace SharedCells.Report

/-- **`Sample`** -- a measurement found on the disk. -/
structure Sample where
  group : String
  function : String
  /-- The folder of the measurement, by names from the working folder down. -/
  place : List Name
  /-- The content of `estimates.json`. -/
  estimates : ByteArray
  /-- The text of the `benchmark.json` beside it. -/
  benchmark : Option String

namespace Sample

/-- The measurement that a file is, if it is one. `trail` names the folders above the file,
innermost first, and `siblings` are the entries of its own folder. A file is passed over unless its
name and that of its folder are the texts they have to be and the two names above are texts. -/
def ofFile? (trail : List Name) (siblings : List (Name × Node)) (name : Name)
    (content : ByteArray) : Option Sample :=
  match trail with
  | folder :: functionFolder :: groupFolder :: _ =>
    if name.text? = some "estimates.json" ∧ folder.text? = some "new" then
      match functionFolder.text?, groupFolder.text? with
      | some function, some group =>
        if group = "report" ∨ function = "report" then none
        else
          some ⟨group, function, trail.reverse, content,
            (siblings.lookup (.ofText "benchmark.json")).bind Node.text?⟩
      | _, _ => none
    else none
  | _ => none

mutual

/-- **`below`** -- the measurements in a list of entries and below them, in the order in which
they are found. -/
def below (trail : List Name) (siblings : List (Name × Node)) :
    List (Name × Node) → List Sample
  | [] => []
  | (name, node) :: rest => ofNode trail siblings name node ++ below trail siblings rest

/-- The measurements that an entry is or holds. -/
def ofNode (trail : List Name) (siblings : List (Name × Node)) (name : Name) :
    Node → List Sample
  | .file content => (ofFile? trail siblings name content).toList
  | .folder entries => below (name :: trail) entries entries

end

/-- The path of a file beside the measurement. -/
def pathOf (s : Sample) (name : Name) : Path := .join (s.place ++ [name])

/-- The elements of a pass that a document names, and one if it names none. -/
def elementsIn (doc : Json Json.Number) : Binary64 :=
  match (doc.get? "throughput").bind (Json.get? "Elements") with
  | some (.number n) => n.toBinary64
  | _ => .ofNat 1

/-- The mean time of a pass that a document names, and zero if it names none. -/
def timeIn (doc : Json Json.Number) : Binary64 :=
  match (doc.get? "mean").bind (Json.get? "point_estimate") with
  | some (.number n) => n.toBinary64
  | _ => .ofNat 0

/-- The document that a text is. -/
def parse (path : Path) (text : String) : Except Failure (Json Json.Number) :=
  match Json.read text with
  | .ok doc => .ok doc
  | .error fault => .error (.parsing path text fault)

/-- How many elements a pass of the measurement handles. -/
def elements (s : Sample) : Except Failure Binary64 :=
  match s.benchmark with
  | none => .ok (.ofNat 1)
  | some text => do
    let doc ← parse (s.pathOf "benchmark.json") text
    .ok (elementsIn doc)

/-- The mean time of a pass of the measurement. -/
def time (s : Sample) : Except Failure Binary64 :=
  let path := s.pathOf "estimates.json"
  match String.fromUTF8? s.estimates with
  | none => .error (.reading path .invalidData)
  | some text => do
    let doc ← parse path text
    .ok (timeIn doc)

/-- **`rate?`** -- the rate that the measurement shows. It shows none unless its time is
positive. -/
def rate? (s : Sample) : Except Failure (Option Binary64) := do
  let elements ← s.elements
  let time ← s.time
  .ok (if (Binary64.ofNat 0).lt time then some (rateOf elements time) else none)

end Sample

end SharedCells.Report
