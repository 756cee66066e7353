/-
# SharedCells.Report.Table -- rates by group and function

A table holds one rate per group and function, ordered by group and then by function; names
are compared byte by byte. A rate that is inserted replaces an older one of the same group
and function.

The table is written as a document with one section per group, in which every function has
a row with its rate.
-/

import SharedCells.Rate

namespace SharedCells.Report

/-- **`Row`** -- the rate of one function. -/
structure Row where
  group : String
  function : String
  rate : Binary64

namespace Row

/-- Do the rows belong to the same group and function? -/
def SameKey (a b : Row) : Prop := a.group = b.group ∧ a.function = b.function

instance (a b : Row) : Decidable (SameKey a b) := inferInstanceAs (Decidable (_ ∧ _))

/-- Does the first row stand before the second? -/
def Before (a b : Row) : Prop := a.group < b.group ∨ (a.group = b.group ∧ a.function < b.function)

instance (a b : Row) : Decidable (Before a b) := inferInstanceAs (Decidable (_ ∨ _))

/-- The row as a line of the document. -/
def text (r : Row) : List Char :=
  "| ".toList ++ r.function.toList ++ " | ".toList ++ (ShownRate.of r.rate).text ++ " |\n".toList

end Row

/-- **`Table`** -- the rows in order. -/
abbrev Table := List Row

namespace Table

/-- **`insert`** -- the table with one more row, which replaces a row of the same key. -/
def insert (new : Row) : Table → Table
  | [] => [new]
  | row :: rest =>
    if new.SameKey row then new :: rest
    else if new.Before row then new :: row :: rest
    else row :: insert new rest

/-- **`sections`** -- the rows of each run of one group. -/
def sections : Table → List (String × List Row)
  | [] => []
  | row :: rest =>
    match sections rest with
    | [] => [(row.group, [row])]
    | (group, rows) :: more =>
      if row.group = group then (group, row :: rows) :: more
      else (row.group, [row]) :: (group, rows) :: more

/-- The head of a group's section. -/
def sectionHead (group : String) : List Char :=
  "\n## ".toList ++ group.toList ++ "\n\n| Function | Ops/s |\n|---|---|\n".toList

/-- A group's section. -/
def sectionText (group : String) (rows : List Row) : List Char :=
  sectionHead group ++ rows.flatMap Row.text

/-- **`text`** -- the whole document. -/
def text (t : Table) : List Char :=
  "# Atomic Cell Benchmark Report\n".toList
    ++ (sections t).flatMap fun (group, rows) => sectionText group rows

end Table

end SharedCells.Report
