/-
# SharedCells.Proofs.Report.Document -- the report says what the disk says

A table is written as the sections that it shows, and these describe the disk, since the rows of
the table are the measurements that count.

Two listings of the same files are walked in different orders. Their tables hold the same rows, and
an ordered table is determined by its rows, so the reports are the same text:
`generate_describes_any_listing`.
-/

import SharedCells.Proofs.Report.Description
import SharedCells.Proofs.Report.Failure

namespace SharedCells.Report

/-! ## The text of a table -/

/-- A function and its rate, as a row shows them. -/
def Row.shown (r : Row) : String × Binary64 := (r.function, r.rate)

/-- What a table shows. -/
def shown (t : Table) : Sections := t.sections.map fun s => (s.1, s.2.map Row.shown)

theorem toList_rowsText (rows : List Row) :
    (rowsText (rows.map Row.shown)).toList = rows.flatMap Row.text := by
  induction rows with
  | nil => rfl
  | cons r rows ih =>
      simp only [List.map_cons, List.flatMap_cons, Row.shown, rowsText, String.toList_append, ih,
        rateText, String.toList_ofList, Row.text]

theorem toList_sectionsText (parts : List (String × List Row)) :
    (sectionsText (parts.map fun s => (s.1, s.2.map Row.shown))).toList =
      parts.flatMap fun s => Table.sectionText s.1 s.2 := by
  induction parts with
  | nil => rfl
  | cons part parts ih =>
      simp only [List.map_cons, List.flatMap_cons, sectionsText, String.toList_append, ih,
        toList_rowsText, Table.sectionText, Table.sectionHead]

theorem toList_documentText (t : Table) : (documentText (shown t)).toList = t.text :=
  calc (documentText (shown t)).toList
      = "# Atomic Cell Benchmark Report\n".toList ++ (sectionsText (shown t)).toList :=
        String.toList_append ..
    _ = "# Atomic Cell Benchmark Report\n".toList ++
          t.sections.flatMap (fun s => Table.sectionText s.1 s.2) :=
        congrArg _ (toList_sectionsText t.sections)
    _ = t.text := rfl

/-- A table is written as the document it shows. -/
theorem contentOf_eq (t : Table) : contentOf t = (documentText (shown t)).toUTF8 := by
  rw [contentOf, ← toList_documentText, String.ofList_toList]

/-- The rows shown are those of the table. -/
theorem mem_shown_iff (t : Table) (group function : String) (rate : Binary64) :
    (∃ rows, (group, rows) ∈ shown t ∧ (function, rate) ∈ rows) ↔ ⟨group, function, rate⟩ ∈ t := by
  constructor
  · rintro ⟨rows, hsection, hrow⟩
    obtain ⟨⟨g, part⟩, hpart, heq⟩ := List.mem_map.mp hsection
    obtain ⟨rfl, rfl⟩ := Prod.mk.inj heq
    obtain ⟨r, hr, heq⟩ := List.mem_map.mp hrow
    obtain ⟨rfl, rfl⟩ := Prod.mk.inj heq
    have hgroup := (Table.sections_named t _ hpart).2 r hr
    dsimp only at hgroup
    subst hgroup
    exact Table.mem_of_mem_section hpart hr
  · intro hr
    -- The row stands in some section, and that is the section of its group.
    rw [← Table.sections_flat t] at hr
    obtain ⟨⟨g, part⟩, hpart, hr⟩ := List.mem_flatMap.mp hr
    have hgroup := (Table.sections_named t _ hpart).2 _ hr
    dsimp only at hgroup
    subst hgroup
    exact ⟨_, List.mem_map.mpr ⟨_, hpart, rfl⟩, List.mem_map.mpr ⟨_, hr, rfl⟩⟩

theorem describes_shown {d : Disk} {t : Table} (ordered : t.Ordered)
    (h : ∀ r, r ∈ t ↔ ∃ place, Counts d r.group r.function place r.rate) :
    Describes d (shown t) where
  groups := by
    rw [shown, List.map_map]
    exact (Table.sections_increase ordered).imp fun hlt => (byteBefore_iff _ _).mpr hlt
  functions := by
    intro s hs
    obtain ⟨part, hpart, rfl⟩ := List.mem_map.mp hs
    dsimp only
    rw [List.map_map]
    exact (Table.section_functions_increase ordered hpart).imp fun hlt =>
      (byteBefore_iff _ _).mpr hlt
  nonempty := by
    intro s hs
    obtain ⟨part, hpart, rfl⟩ := List.mem_map.mp hs
    exact fun hnil => (Table.sections_named t part hpart).1 (List.map_eq_nil_iff.mp hnil)
  rows group function rate := by
    rw [mem_shown_iff]
    exact h ⟨group, function, rate⟩

/-! ## The rows that the walk yields -/

variable {d e : Disk} {entries : List (Name × Node)}

/-- **`OneEach`** -- no two measurements count for the same function of a group. -/
def OneEach (d : Disk) : Prop :=
  ∀ group function place place' rate rate', Counts d group function place rate →
    Counts d group function place' rate' → place = place'

theorem Counts.rate_unique {group function : String} {place : List Name} {rate rate' : Binary64}
    (h : Counts d group function place rate) (h' : Counts d group function place rate') :
    rate = rate' := by
  obtain ⟨estimates, measured, hrate⟩ := h
  obtain ⟨estimates', measured', hrate'⟩ := h'
  have hfile := measured.file
  rw [measured'.file] at hfile
  obtain rfl := Node.file.inj (Option.some.inj hfile)
  rw [hrate] at hrate'
  exact Option.some.inj hrate'

theorem mem_rows_iff (distinct : d.Distinct) (hsource : d.find? source = some (.folder entries))
    (r : Row) :
    r ∈ (samplesIn entries).filterMap Sample.row? ↔
      ∃ place, Counts d r.group r.function place r.rate := by
  rw [List.mem_filterMap]
  constructor
  · rintro ⟨s, hs, hrow⟩
    obtain ⟨measured, beside⟩ := (mem_samples_iff distinct hsource).mp hs
    obtain ⟨rate, hrate, rfl⟩ := Option.map_eq_some_iff.mp hrow
    rw [beside] at hrate
    exact ⟨s.place, s.estimates, measured, hrate⟩
  · rintro ⟨place, estimates, measured, hrate⟩
    refine ⟨_, measured.mem_samples distinct hsource, ?_⟩
    exact Option.map_eq_some_iff.mpr ⟨r.rate, hrate, rfl⟩

/-- No row drives out another, so the table holds a row for each measurement that counts. -/
theorem mem_table_iff (distinct : d.Distinct) (hsource : d.find? source = some (.folder entries))
    (one : OneEach d) (r : Row) :
    r ∈ tableOf entries ↔ ∃ place, Counts d r.group r.function place r.rate := by
  rw [tableOf, Table.mem_ofRows, mem_rows_iff distinct hsource]
  -- Two rows of one key come from one measurement, which has one rate.
  intro a ha b hb key
  obtain ⟨place, hplace⟩ := (mem_rows_iff distinct hsource a).mp ha
  obtain ⟨place', hplace'⟩ := (mem_rows_iff distinct hsource b).mp hb
  rw [← key.1, ← key.2] at hplace'
  obtain rfl := one _ _ _ _ _ _ hplace hplace'
  obtain ⟨group, function, rate⟩ := a
  obtain ⟨group', function', rate'⟩ := b
  obtain ⟨rfl, rfl⟩ := key
  obtain rfl := hplace.rate_unique hplace'
  rfl

/-- The groups and functions of all samples of the walk. -/
def keysFound (d : Disk) : List (String × String) :=
  match d.find? source with
  | some (.folder entries) => (samplesIn entries).map fun s => (s.group, s.function)
  | _ => []

/-- Where the walk meets no key twice, no two measurements count for the same function. -/
theorem oneEach_of_nodup (distinct : d.Distinct) (h : (keysFound d).Nodup) : OneEach d := by
  rintro group function place place' rate rate' ⟨estimates, measured, -⟩ ⟨estimates', measured', -⟩
  obtain ⟨entries, hsource⟩ := measured.source_found
  rw [keysFound, hsource] at h
  have hsame := List.inj_on_of_nodup_map h (measured.mem_samples distinct hsource)
    (measured'.mem_samples distinct hsource) rfl
  exact congrArg Sample.place hsame

/-! ## Another listing of the same files -/

theorem Measured.of_sameTree {group function : String} {place : List Name}
    {estimates : ByteArray} (same : d.SameTree e)
    (h : Measured d group function place estimates) : Measured e group function place estimates :=
  ⟨h.below, h.named, h.groupCounts, h.functionCounts, (same.found_file_iff _ _).mp h.file⟩

theorem benchmarkBeside_of_sameTree (same : d.SameTree e) {place : List Name} {text : String}
    (h : benchmarkBeside d place = some text) : benchmarkBeside e place = some text := by
  obtain ⟨node, hnode, htext⟩ := Option.bind_eq_some_iff.mp h
  cases node with
  | folder below => simp [Node.text?] at htext
  | file content =>
      rw [benchmarkBeside, (same.found_file_iff _ _).mp hnode]
      exact htext

theorem benchmarkBeside_eq (same : d.SameTree e) (place : List Name) :
    benchmarkBeside d place = benchmarkBeside e place := by
  apply Option.ext
  intro text
  constructor
  · exact benchmarkBeside_of_sameTree same
  · exact benchmarkBeside_of_sameTree same.symm

theorem counts_iff (same : d.SameTree e) (group function : String) (place : List Name)
    (rate : Binary64) :
    Counts d group function place rate ↔ Counts e group function place rate := by
  constructor
  · rintro ⟨estimates, measured, hrate⟩
    exact ⟨estimates, measured.of_sameTree same, benchmarkBeside_eq same place ▸ hrate⟩
  · rintro ⟨estimates, measured, hrate⟩
    exact ⟨estimates, measured.of_sameTree same.symm, benchmarkBeside_eq same place ▸ hrate⟩

theorem Blocked.of_sameTree (same : d.SameTree e) (h : Blocked d) : Blocked e := by
  cases h with
  | source stands => exact .source ((same.found_file_iff _ _).mp stands)
  | measurement unusable =>
      refine .measurement ?_
      cases unusable with
      | estimates measured unreadable => exact .estimates (measured.of_sameTree same) unreadable
      | benchmark measured beside unreadable =>
          rw [benchmarkBeside_eq same] at beside
          exact .benchmark (measured.of_sameTree same) beside unreadable
  | @disk entries found obstructed =>
      obtain ⟨entries', found'⟩ := same.found_folder found
      refine .disk found' ?_
      cases obstructed with
      | folder stands => exact .folder ((same.found_file_iff _ _).mp stands)
      | @target below stands =>
          obtain ⟨below', stands'⟩ := same.found_folder stands
          exact .target stands'

theorem OneEach.of_sameTree (same : d.SameTree e) (one : OneEach d) : OneEach e := by
  intro group function place place' rate rate' h h'
  exact one group function place place' rate rate' ((counts_iff same ..).mpr h)
    ((counts_iff same ..).mpr h')

/-- The walks of two listings yield their rows in different orders, and the same table. -/
theorem tableOf_sameTree {entries' : List (Name × Node)} (same : d.SameTree e)
    (distinct : d.Distinct) (distinct' : e.Distinct)
    (hsource : d.find? source = some (.folder entries))
    (hsource' : e.find? source = some (.folder entries')) (one : OneEach d) :
    tableOf entries' = tableOf entries := by
  apply (Table.ordered_ofRows _).eq_of_mem_iff (Table.ordered_ofRows _)
  intro r
  show r ∈ tableOf entries' ↔ r ∈ tableOf entries
  rw [mem_table_iff distinct hsource one,
    mem_table_iff distinct' hsource' (one.of_sameTree same)]
  constructor
  · rintro ⟨place, h⟩
    exact ⟨place, (counts_iff same ..).mpr h⟩
  · rintro ⟨place, h⟩
    exact ⟨place, (counts_iff same ..).mp h⟩

/-- **`generate_describes_any_listing`** -- a report that succeeds says exactly what counts on the
disk, in byte order. There is one way to say it, so the report is the same text whatever the order
in which the folders are listed. -/
theorem generate_describes_any_listing (d : Disk) (distinct : d.Distinct)
    (hsource : ∃ entries, d.find? source = some (.folder entries)) (one : OneEach d)
    (done : (generate d).succeeded = true) :
    ∃ sections, Describes d sections ∧ (∀ other, Describes d other → other = sections) ∧
      ∀ e : Disk, e.Distinct → d.SameTree e →
        (generate e).succeeded = true ∧
          (generate e).disk.find? target = some (.file (documentText sections).toUTF8) := by
  obtain ⟨entries, hsource⟩ := hsource
  have hdescribes : Describes d (shown (tableOf entries)) :=
    describes_shown (Table.ordered_ofRows _) (mem_table_iff distinct hsource one)
  refine ⟨shown (tableOf entries), hdescribes, fun _ => hdescribes.unique, ?_⟩
  intro e distinct' same
  obtain ⟨entries', hsource'⟩ := same.found_folder hsource
  -- What would block the report in the other listing would block it in this one.
  have hfree : ¬ Blocked e := by
    intro hb
    exact not_blocked_of_succeeded distinct done (hb.of_sameTree same.symm)
  obtain ⟨hdone, -, hreport⟩ := generate_free distinct' hfree hsource'
  rw [tableOf_sameTree same distinct distinct' hsource hsource' one, contentOf_eq] at hreport
  exact ⟨hdone, hreport⟩

/-- A folder as a benchmark leaves it, with the text of its estimates. -/
def benchmarkFolder (estimates : String) : Node :=
  .folder [("new", .folder [("estimates.json", .file estimates.toUTF8)])]

/-- Two groups listed in an order that is not theirs, a folder that counts as no function, and one
whose name is no text and therefore no group. -/
def measuredDisk : Disk :=
  .holding [("target", .folder [("criterion", .folder
    [("u8", .folder
        [("load", benchmarkFolder "\x7b\"mean\":\x7b\"point_estimate\":2\x7d\x7d")]),
      (⟨[0xFF]⟩, .folder
        [("store", benchmarkFolder "\x7b\"mean\":\x7b\"point_estimate\":8\x7d\x7d")]),
      ("u64", .folder
        [("report", benchmarkFolder "no JSON"),
          ("add", benchmarkFolder "\x7b\"mean\":\x7b\"point_estimate\":4\x7d\x7d")])])])]

theorem generate_describes_any_listing_two_groups :
    (∃ sections, Describes measuredDisk sections ∧
      (∀ other, Describes measuredDisk other → other = sections) ∧
      ∀ e : Disk, e.Distinct → measuredDisk.SameTree e →
        (generate e).succeeded = true ∧
          (generate e).disk.find? target = some (.file (documentText sections).toUTF8)) ∧
    ((generate measuredDisk).disk.find? target).bind Node.text? =
      some ("# Atomic Cell Benchmark Report\n" ++
        "\n## u64\n\n| Function | Ops/s |\n|---|---|\n| add | 250.00M |\n" ++
        "\n## u8\n\n| Function | Ops/s |\n|---|---|\n| load | 500.00M |\n") := by
  have distinct : measuredDisk.Distinct := by decide +kernel
  have one : OneEach measuredDisk := oneEach_of_nodup distinct (by decide +kernel)
  have done : (generate measuredDisk).succeeded = true := by decide +kernel
  exact ⟨generate_describes_any_listing measuredDisk distinct ⟨_, rfl⟩ one done,
    by decide +kernel⟩

end SharedCells.Report
