/-
# SharedCells.Proofs.Report.Origin -- which files the rows of a report come from

The benchmarks leave a measurement two folders below the source, at the place `documented`. The walk
asks for less. It goes to any depth and takes the group and the function from the names above the
folder `new`, and these may be the names of the source itself. `Located` lists all places that
yield a row: the documented one, those further down, and two that are further up, where a row is
named after `criterion` or `target`.

A report keeps to the documented files exactly if nothing else counts on the disk: `Documented`.

* `located_iff` : the places at which the walk takes a file for a measurement.
* `generate_rows_located` : every row comes from such a place, and every such place has its row.
* `generate_reports_strays` : a report with three rows, none of which has a documented file.
-/

import SharedCells.Proofs.Report.Rows

namespace SharedCells.Report

/-! ## The places of measurements -/

/-- **`documented`** -- where the benchmarks leave the measurement of a group's function. -/
def documented (group function : String) : List Name :=
  source ++ [Name.ofText group, Name.ofText function, "new"]

/-- **`Located`** -- the folders in which a measurement of the group's function may stand. -/
inductive Located (group function : String) : List Name → Prop
  | documented : Located group function (documented group function)
  | deeper {more : List Name} (below : more ≠ []) :
      Located group function (source ++ more ++ [Name.ofText group, Name.ofText function, "new"])
  /-- The group is named after the source. -/
  | inSource (named : group = "criterion") :
      Located group function (source ++ [Name.ofText function, "new"])
  /-- The function is named after the source, and the group after the folder above it. -/
  | atSource (named : group = "target" ∧ function = "criterion") :
      Located group function (source ++ [Name.ofText "new"])

variable {d : Disk} {group function : String} {place : List Name}

theorem Located.below (h : Located group function place) : source <+: place := by
  cases h with
  | documented => exact List.prefix_append ..
  | deeper => exact ⟨_, (List.append_assoc ..).symm⟩
  | inSource => exact List.prefix_append ..
  | atSource => exact List.prefix_append ..

theorem Located.named (h : Located group function place) :
    ∃ above, place = above ++ [Name.ofText group, Name.ofText function, "new"] := by
  cases h with
  | documented => exact ⟨source, rfl⟩
  | @deeper more => exact ⟨source ++ more, rfl⟩
  | inSource named => exact ⟨["target"], named ▸ rfl⟩
  | atSource named => exact ⟨[], named.1 ▸ named.2 ▸ rfl⟩

/-- The source has two names, and it ends in none, one or both of them. -/
theorem own_names_of_source {above own : List Name} (h : source = above ++ own) :
    own = [] ∨ own = [Name.ofText "criterion"] ∨ own = source := by
  rcases List.cons_eq_append_iff.mp h with ⟨-, hown⟩ | ⟨above, -, h⟩
  · exact Or.inr (Or.inr hown)
  · rcases List.cons_eq_append_iff.mp h with ⟨-, hown⟩ | ⟨above, -, h⟩
    · exact Or.inr (Or.inl hown)
    · exact Or.inl (List.append_eq_nil_iff.mp h.symm).2

/-- **`located_iff`** -- the last three names of a place below the source may reach into the source,
and in no other way than `Located` says. -/
theorem located_iff : Located group function place ↔
    source <+: place ∧
      ∃ above, place = above ++ [Name.ofText group, Name.ofText function, "new"] := by
  constructor
  · intro h
    exact ⟨h.below, h.named⟩
  · rintro ⟨⟨rest, rfl⟩, above, h⟩
    -- Either the source ends above the three names, or some of them are its own.
    rcases List.append_eq_append_iff.mp h with ⟨more, rfl, rfl⟩ | ⟨own, hsource, hnames⟩
    · rw [← List.append_assoc]
      cases more with
      | nil => exact .documented
      | cons name more => exact .deeper (List.cons_ne_nil name more)
    · rcases own_names_of_source hsource with rfl | rfl | rfl
      · rw [List.nil_append] at hnames
        rw [← hnames]
        exact .documented
      · obtain ⟨hgroup, rfl⟩ := List.cons_eq_cons.mp hnames
        exact .inSource (Name.ofText_injective hgroup)
      · obtain ⟨hgroup, hnames⟩ := List.cons_eq_cons.mp hnames
        obtain ⟨hfunction, rfl⟩ := List.cons_eq_cons.mp hnames
        exact .atSource ⟨Name.ofText_injective hgroup, Name.ofText_injective hfunction⟩

theorem Measured.located {estimates : ByteArray} (h : Measured d group function place estimates) :
    Located group function place :=
  located_iff.mpr ⟨h.below, h.named⟩

theorem Counts.located {rate : Binary64} (h : Counts d group function place rate) :
    Located group function place := by
  obtain ⟨estimates, measured, -⟩ := h
  exact measured.located

/-! ## Disks on which nothing else counts -/

/-- **`Documented`** -- every measurement that counts stands where the benchmarks leave it. -/
def Documented (d : Disk) : Prop :=
  ∀ group function place rate, Counts d group function place rate →
    place = documented group function

theorem Documented.oneEach (h : Documented d) : OneEach d := by
  intro group function place place' rate rate' counts counts'
  exact (h _ _ _ _ counts).trans (h _ _ _ _ counts').symm

/-- A measurement that counts has a row in the table, though not always its own. -/
theorem row_of_counts {entries : List (Name × Node)} (distinct : d.Distinct)
    (hsource : d.find? source = some (.folder entries)) {rate : Binary64}
    (h : Counts d group function place rate) :
    ∃ rows kept, (group, rows) ∈ shown (tableOf entries) ∧ (function, kept) ∈ rows := by
  have hrow := (mem_rows_iff distinct hsource ⟨group, function, rate⟩).mpr ⟨place, h⟩
  obtain ⟨⟨g, f, kept⟩, hkept, hkey⟩ := Table.key_mem_ofRows hrow
  obtain ⟨rfl, rfl⟩ := Prod.mk.inj hkey
  obtain ⟨rows, hrows, hmem⟩ := (mem_shown_iff _ g f kept).mpr hkept
  exact ⟨rows, kept, hrows, hmem⟩

/-! ## The rows of a report -/

/-- **`generate_rows_located`** -- a report that succeeds shows at each row the rate of a
measurement that stands at one of the places of `Located`, and has a row for every measurement that
counts at any of them. No row has two files to come from, and every row shows its documented file,
exactly if nothing else counts. Without a source nothing is written. -/
theorem generate_rows_located (d : Disk) (distinct : d.Distinct)
    (done : (generate d).succeeded = true) :
    (d.find? source = none → (generate d).disk = d) ∧
    ∀ entries, d.find? source = some (.folder entries) → ∃ sections,
      (generate d).disk.find? target = some (.file (documentText sections).toUTF8) ∧
      (∀ s ∈ sections, ∀ row ∈ s.2, ∃ place,
        Located s.1 row.1 place ∧ Counts d s.1 row.1 place row.2) ∧
      (∀ group function place rate, Counts d group function place rate →
        ∃ rows kept, (group, rows) ∈ sections ∧ (function, kept) ∈ rows) ∧
      ((OneEach d ∧ ∀ s ∈ sections, ∀ row ∈ s.2,
        Counts d s.1 row.1 (documented s.1 row.1) row.2) ↔ Documented d) := by
  constructor
  · intro hmissing
    exact (generate_missing hmissing).2
  intro entries hsource
  have hfree : ¬ Blocked d := not_blocked_of_succeeded distinct done
  have hcounts : ∀ s ∈ shown (tableOf entries), ∀ row ∈ s.2, ∃ place,
      Counts d s.1 row.1 place row.2 := fun s hs row hrow =>
    counts_of_mem_shown distinct hsource hs hrow
  refine ⟨shown (tableOf entries), ?_, ?_, ?_, ?_, ?_⟩
  · rw [← contentOf_eq]
    exact (generate_free distinct hfree hsource).2.2
  · intro s hs row hrow
    obtain ⟨place, h⟩ := hcounts s hs row hrow
    exact ⟨place, h.located, h⟩
  · intro group function place rate h
    exact row_of_counts distinct hsource h
  · rintro ⟨one, hrows⟩ group function place rate h
    obtain ⟨rows, kept, hs, hrow⟩ := row_of_counts distinct hsource h
    exact one _ _ _ _ _ _ h (hrows _ hs _ hrow)
  · intro tidy
    refine ⟨tidy.oneEach, ?_⟩
    intro s hs row hrow
    obtain ⟨place, h⟩ := hcounts s hs row hrow
    exact tidy _ _ _ _ h ▸ h

/-! ## Rows without a documented file -/

/-- Measurements in the source itself, one folder below it, and three folders below it. -/
def strayDisk : Disk :=
  benchmarked [("new", .folder [("estimates.json", .file fast.toUTF8)]),
    ("f", benchmarkFolder fast), ("g", .folder [("f", .folder [("p", benchmarkFolder fast)])])]

theorem stray_counts :
    Counts strayDisk "criterion" "f" ["target", "criterion", "f", "new"]
      (rateOf (.ofNat 1) (.ofNat 2)) := by
  have hcounted : countedRate? none fast.toUTF8 = some (rateOf (.ofNat 1) (.ofNat 2)) := by
    decide +kernel
  exact ⟨fast.toUTF8,
    ⟨⟨["f", "new"], rfl⟩, ⟨["target"], rfl⟩, by decide, by decide, rfl⟩, hcounted⟩

theorem generate_rows_located_strays :
    (generate strayDisk).succeeded = true ∧ OneEach strayDisk ∧ ∃ sections,
      (generate strayDisk).disk.find? target = some (.file (documentText sections).toUTF8) ∧
      ∃ s ∈ sections, ∃ row ∈ s.2,
        ¬ Counts strayDisk s.1 row.1 (documented s.1 row.1) row.2 := by
  have distinct : strayDisk.Distinct := by decide +kernel
  have done : (generate strayDisk).succeeded = true := by decide +kernel
  have one : OneEach strayDisk := oneEach_of_nodup distinct (by decide +kernel)
  obtain ⟨sections, htext, -, -, hiff⟩ := (generate_rows_located strayDisk distinct done).2 _ rfl
  refine ⟨done, one, sections, htext, ?_⟩
  by_contra hnone
  push Not at hnone
  have hplace := hiff.mp ⟨one, hnone⟩ _ _ _ _ stray_counts
  exact absurd hplace (by decide)

/-- The part of a report on a group with one function. -/
def partText (group function : String) : String :=
  "\n## " ++ group ++ "\n\n| Function | Ops/s |\n|---|---|\n| " ++ function ++ " | 500.00M |\n"

/-- The source and the folder above it are shown as groups and as a function, and a folder between a
group and its parameter as a group. No file stands at the documented place of any of the rows. -/
theorem generate_reports_strays :
    strayDisk.Distinct ∧ (generate strayDisk).succeeded = true ∧
    reportOf strayDisk = some ("# Atomic Cell Benchmark Report\n" ++ partText "criterion" "f" ++
      partText "f" "p" ++ partText "target" "criterion") ∧
    ∀ row ∈ [("criterion", "f"), ("f", "p"), ("target", "criterion")],
      strayDisk.find? (documented row.1 row.2 ++ [Name.ofText "estimates.json"]) = none := by
  refine ⟨by decide, by decide +kernel, by decide +kernel, ?_⟩
  intro row hrow
  simp only [List.mem_cons, List.not_mem_nil, or_false] at hrow
  rcases hrow with rfl | rfl | rfl
  · rfl
  · rfl
  · rfl

end SharedCells.Report
