/-
# SharedCells.Proofs.Report.Description -- what a report has to say

What a report has to say is read off the disk by place. `Counts` gives the rate of a measurement,
and `Describes` asks for sections and rows in byte order, one row for each measurement that counts;
`documentText` writes them down. None of this mentions the walk, the table or the order in which a
folder lists its entries.

Keys in strictly increasing order leave no choice, so a disk has one description:
`Describes.unique`.
-/

import SharedCells.Proofs.Report.Collect
import SharedCells.Proofs.Text.ByteOrder

namespace SharedCells.Report

/-! ## What has to be said -/

/-- **`Counts`** -- a measurement in the folder at this place counts for the group's function with
this rate. -/
def Counts (d : Disk) (group function : String) (place : List Name) (rate : Binary64) : Prop :=
  ∃ estimates, Measured d group function place estimates ∧
    countedRate? (benchmarkBeside d place) estimates = some rate

/-- **`Sections`** -- the groups of a report, each with its functions and their rates. -/
abbrev Sections := List (String × List (String × Binary64))

/-- **`Describes`** -- the sections list the measurements that count, and nothing else. -/
structure Describes (d : Disk) (sections : Sections) : Prop where
  groups : (sections.map Prod.fst).Pairwise ByteBefore
  functions : ∀ s ∈ sections, (s.2.map Prod.fst).Pairwise ByteBefore
  nonempty : ∀ s ∈ sections, s.2 ≠ []
  rows : ∀ group function rate,
    (∃ rows, (group, rows) ∈ sections ∧ (function, rate) ∈ rows) ↔
      ∃ place, Counts d group function place rate

/-- The lines of a section, one for each function. -/
def rowsText : List (String × Binary64) → String
  | [] => ""
  | (function, rate) :: rest =>
    "| " ++ function ++ " | " ++ rateText rate ++ " |\n" ++ rowsText rest

/-- The sections, each with its head. -/
def sectionsText : Sections → String
  | [] => ""
  | (group, rows) :: rest =>
    "\n## " ++ group ++ "\n\n| Function | Ops/s |\n|---|---|\n" ++ rowsText rows
      ++ sectionsText rest

/-- **`documentText`** -- the text of a report. -/
def documentText (sections : Sections) : String :=
  "# Atomic Cell Benchmark Report\n" ++ sectionsText sections

/-! ## One description -/

/-- **`KeyBefore`** -- are the first components in byte order? -/
def KeyBefore {α : Type} (a b : String × α) : Prop := ByteBefore a.1 b.1

theorem not_byteBefore_self (a : String) : ¬ ByteBefore a a := List.lt_irrefl _

instance {α : Type} : Std.Irrefl (KeyBefore (α := α)) := ⟨fun a => not_byteBefore_self a.1⟩

instance {α : Type} : Std.Antisymm (KeyBefore (α := α)) :=
  ⟨fun a _ hab hba => absurd (List.lt_trans hab hba) (not_byteBefore_self a.1)⟩

/-- A list whose keys increase is determined by its members. -/
theorem eq_of_keys {α : Type} {l m : List (String × α)} (hl : (l.map Prod.fst).Pairwise ByteBefore)
    (hm : (m.map Prod.fst).Pairwise ByteBefore) (h : ∀ a, a ∈ l ↔ a ∈ m) : l = m := by
  rw [List.pairwise_map] at hl hm
  have hl' : l.Pairwise KeyBefore := hl
  exact hl'.eq_of_mem_iff hm h

/-- In a list whose keys increase, a key leads to one value. -/
theorem value_unique {α : Type} {l : List (String × α)}
    (hl : (l.map Prod.fst).Pairwise ByteBefore) {key : String} {x y : α} (hx : (key, x) ∈ l)
    (hy : (key, y) ∈ l) : x = y := by
  induction l with
  | nil => exact absurd hx nofun
  | cons first rest ih =>
      obtain ⟨hfirst, hrest⟩ := List.pairwise_cons.mp hl
      -- A key that comes first does not come again.
      have hagain : ∀ z, first.1 = key → (key, z) ∉ rest := by
        rintro z rfl hz
        exact not_byteBefore_self first.1 (hfirst _ (List.mem_map.mpr ⟨_, hz, rfl⟩))
      rcases List.mem_cons.mp hx with rfl | hx'
      · rcases List.mem_cons.mp hy with heq | hy'
        · exact (Prod.mk.inj heq).2.symm
        · exact absurd hy' (hagain y rfl)
      · rcases List.mem_cons.mp hy with rfl | hy'
        · exact absurd hx' (hagain x rfl)
        · exact ih hrest hx' hy'

theorem Describes.mem_of_mem {d : Disk} {sections other : Sections} (h : Describes d sections)
    (h' : Describes d other) {part : String × List (String × Binary64)} (hpart : part ∈ sections) :
    part ∈ other := by
  obtain ⟨group, rows⟩ := part
  -- The group has a row, so the other description has a section for it, with the same rows.
  obtain ⟨⟨function, rate⟩, hrow⟩ := List.exists_mem_of_ne_nil rows (h.nonempty _ hpart)
  obtain ⟨rows', hpart', -⟩ :=
    (h'.rows group function rate).mpr ((h.rows group function rate).mp ⟨rows, hpart, hrow⟩)
  have hrows : rows = rows' := by
    apply eq_of_keys (h.functions _ hpart) (h'.functions _ hpart')
    rintro ⟨function, rate⟩
    constructor
    · intro hr
      obtain ⟨found, hfound, hr'⟩ :=
        (h'.rows group function rate).mpr ((h.rows group function rate).mp ⟨rows, hpart, hr⟩)
      exact value_unique h'.groups hfound hpart' ▸ hr'
    · intro hr
      obtain ⟨found, hfound, hr'⟩ :=
        (h.rows group function rate).mpr ((h'.rows group function rate).mp ⟨rows', hpart', hr⟩)
      exact value_unique h.groups hfound hpart ▸ hr'
  rw [hrows]
  exact hpart'

/-- A disk has at most one description. -/
theorem Describes.unique {d : Disk} {sections other : Sections} (h : Describes d sections)
    (h' : Describes d other) : other = sections := by
  apply eq_of_keys h'.groups h.groups
  intro part
  exact ⟨h'.mem_of_mem h, h.mem_of_mem h'⟩

end SharedCells.Report
