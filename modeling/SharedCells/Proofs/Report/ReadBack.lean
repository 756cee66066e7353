/-
# SharedCells.Proofs.Report.ReadBack -- a report can be read back

Names stand in a report as they are, bars, blanks and `#` included. What keeps it unambiguous is
that a name has no line feed and a rate is one word. So the lines of a report are known, an empty
one opens a section, five lines on come its rows, and in a row the rate is the last word before the
closing bar, whatever the name before it looks like.

`readReport` reads a report this way, and `readReport_text` says that it finds the rows of the table
in order, each with its group, its function and its rate as shown. A table is ordered, so these
triples determine the report and the report determines them: `generate_same_text_iff`.
-/

import SharedCells.Proofs.Rate.Reading
import SharedCells.Proofs.Report.Document

namespace SharedCells.Report

/-! ## Lines -/

/-- **`linesOf`** -- the lines of a text, each ended by a line feed. -/
def linesOf : List Char → List (List Char)
  | [] => []
  | c :: cs =>
    if c = '\n' then [] :: linesOf cs
    else
      match linesOf cs with
      | [] => [[c]]
      | line :: lines => (c :: line) :: lines

/-- Lines one after the other, each ended by a line feed. -/
def unlines (lines : List (List Char)) : List Char := lines.flatMap (· ++ ['\n'])

theorem unlines_cons (line : List Char) (lines : List (List Char)) :
    unlines (line :: lines) = line ++ '\n' :: unlines lines :=
  List.append_assoc line ['\n'] _

theorem unlines_append (lines more : List (List Char)) :
    unlines (lines ++ more) = unlines lines ++ unlines more :=
  List.flatMap_append

theorem linesOf_line {line : List Char} (h : '\n' ∉ line) (rest : List Char) :
    linesOf (line ++ '\n' :: rest) = line :: linesOf rest := by
  induction line with
  | nil => rfl
  | cons c line ih =>
      obtain ⟨hc, hline⟩ := not_or.mp (fun hmem => h (List.mem_cons.mpr hmem))
      rw [List.cons_append, linesOf, if_neg (Ne.symm hc), ih hline]

/-- Lines without line feeds of their own are read as they were written. -/
theorem linesOf_unlines {lines : List (List Char)} (h : ∀ line ∈ lines, '\n' ∉ line) :
    linesOf (unlines lines) = lines := by
  induction lines with
  | nil => rfl
  | cons line lines ih =>
      obtain ⟨hline, hlines⟩ := List.forall_mem_cons.mp h
      rw [unlines_cons, linesOf_line hline, ih hlines]

/-! ## What a report shows -/

/-- **`Shown`** -- a group, a function and its rate as shown. -/
abbrev Shown := String × String × String

/-- What a row shows in its section. -/
def Row.triple (r : Row) : Shown := (r.group, r.function, rateText r.rate)

/-- **`triples`** -- all that a table shows, in no order. -/
def Table.triples (t : Table) : Set Shown := {x | x ∈ t.map Row.triple}

/-- **`OneLine`** -- no name in the table breaks a line. -/
def Table.OneLine (t : Table) : Prop :=
  ∀ r ∈ t, '\n' ∉ r.group.toList ∧ '\n' ∉ r.function.toList

instance (t : Table) : Decidable t.OneLine :=
  inferInstanceAs (Decidable (∀ r ∈ t, '\n' ∉ r.group.toList ∧ '\n' ∉ r.function.toList))

/-- A new first row joins the section of its group, if that comes first, and else opens one. -/
def join (x : Shown) : List (String × List (String × String)) →
    List (String × List (String × String))
  | [] => [(x.1, [x.2])]
  | (group, rows) :: more =>
    if x.1 = group then (group, x.2 :: rows) :: more else (x.1, [x.2]) :: (group, rows) :: more

/-- **`printed`** -- the sections of a table, each with its functions and their rates as shown. -/
def Table.printed (t : Table) : List (String × List (String × String)) :=
  t.sections.map fun s => (s.1, s.2.map fun r => (r.function, rateText r.rate))

theorem Table.printed_cons (r : Row) (t : Table) :
    Table.printed (r :: t) = join r.triple (Table.printed t) := by
  rw [printed, printed, sections]
  cases sections t with
  | nil => rfl
  | cons first more =>
      obtain ⟨group, rows⟩ := first
      rw [List.map_cons, join]
      by_cases hgroup : r.group = group
      · simp only [Row.triple, hgroup, if_true, List.map_cons]
      · simp only [Row.triple, hgroup, if_false, List.map_cons, List.map_nil]

/-- The sections depend on what the rows show, and not on rates that are shown alike. -/
theorem Table.printed_eq (t : Table) : t.printed = (t.map Row.triple).foldr join [] := by
  induction t with
  | nil => rfl
  | cons r t ih => rw [printed_cons, ih, List.map_cons, List.foldr_cons]

/-- The rows of all sections, each with its group. -/
def rowsOf (parts : List (String × List (String × String))) : List Shown :=
  parts.flatMap fun s => s.2.map fun row => (s.1, row)

theorem rowsOf_join (x : Shown) (parts : List (String × List (String × String))) :
    rowsOf (join x parts) = x :: rowsOf parts := by
  cases parts with
  | nil => rfl
  | cons first more =>
      obtain ⟨group, rows⟩ := first
      rw [join]
      split
      case isTrue hgroup =>
          subst hgroup
          rfl
      case isFalse => rfl

theorem Table.rowsOf_printed (t : Table) : rowsOf t.printed = t.map Row.triple := by
  rw [printed_eq]
  induction t.map Row.triple with
  | nil => rfl
  | cons x xs ih => rw [List.foldr_cons, rowsOf_join, ih]

/-! ## The lines of a report -/

/-- The line of a function and its rate. -/
def rowLine (row : String × String) : List Char :=
  "| ".toList ++ row.1.toList ++ " | ".toList ++ row.2.toList ++ " |".toList

/-- The lines above the rows of a section. -/
def headLines (group : String) : List (List Char) :=
  [[], "## ".toList ++ group.toList, [], "| Function | Ops/s |".toList, "|---|---|".toList]

/-- The lines of a section. -/
def sectionLines (s : String × List (String × String)) : List (List Char) :=
  headLines s.1 ++ s.2.map rowLine

/-- The lines of a report. -/
def reportLines (parts : List (String × List (String × String))) : List (List Char) :=
  "# Atomic Cell Benchmark Report".toList :: parts.flatMap sectionLines

theorem unlines_rows (rows : List Row) :
    unlines ((rows.map fun r => (r.function, rateText r.rate)).map rowLine) =
      rows.flatMap Row.text := by
  induction rows with
  | nil => rfl
  | cons r rows ih =>
      rw [List.map_cons, List.map_cons, List.flatMap_cons, ← ih, unlines_cons, rowLine, Row.text]
      simp only [rateText, String.toList_ofList, List.append_assoc]
      rfl

theorem unlines_headLines (group : String) :
    unlines (headLines group) = Table.sectionHead group := by
  simp [unlines, headLines, Table.sectionHead]

theorem unlines_sections (parts : List (String × List Row)) :
    unlines ((parts.map fun s => (s.1, s.2.map fun r => (r.function, rateText r.rate))).flatMap
      sectionLines) = parts.flatMap fun s => Table.sectionText s.1 s.2 := by
  induction parts with
  | nil => rfl
  | cons s parts ih =>
      rw [List.map_cons, List.flatMap_cons, List.flatMap_cons, unlines_append, ih, sectionLines,
        unlines_append, unlines_headLines, unlines_rows, Table.sectionText]

/-- **`unlines_reportLines`** -- a table is written as these lines. -/
theorem unlines_reportLines (t : Table) : unlines (reportLines t.printed) = t.text := by
  have htitle : "# Atomic Cell Benchmark Report".toList ++ ['\n'] =
      "# Atomic Cell Benchmark Report\n".toList := by decide
  rw [reportLines, unlines_cons, Table.printed, unlines_sections, List.append_cons, htitle]
  rfl

/-! ## Reading -/

/-- **`readRow`** -- a function and its rate, which is the last word before the closing bar. -/
def readRow (line : List Char) : String × String :=
  let back := (line.drop 2).reverse.drop 2
  let rate := back.takeWhile (· ≠ ' ')
  (String.ofList (back.drop (rate.length + 3)).reverse, String.ofList rate.reverse)

/-- **`readLines`** -- the rows in these lines. Those before the next section are of the group. -/
def readLines (group : String) : List (List Char) → List Shown
  | [] :: head :: _ :: _ :: _ :: lines => readLines (String.ofList (head.drop 3)) lines
  | (c :: cs) :: lines => (group, readRow (c :: cs)) :: readLines group lines
  | _ => []

/-- **`readReport`** -- the rows of a report, below its title. -/
def readReport (text : List Char) : List Shown := readLines "" ((linesOf text).drop 1)

theorem readRow_rowLine {row : String × String} (h : ' ' ∉ row.2.toList) :
    readRow (rowLine row) = row := by
  -- Backwards: the rate, the bar before it, and the name.
  have hback : ((rowLine row).drop 2).reverse.drop 2 =
      row.2.toList.reverse ++ ' ' :: '|' :: ' ' :: row.1.toList.reverse := by
    simp [rowLine]
  have hrate : (((rowLine row).drop 2).reverse.drop 2).takeWhile (· ≠ ' ') =
      row.2.toList.reverse := by
    rw [hback, Text.takeWhile_ne (mt List.mem_reverse.mp h)]
  rw [readRow, hrate, hback, ← List.drop_drop, List.drop_left]
  show (String.ofList row.1.toList.reverse.reverse, _) = _
  rw [List.reverse_reverse, List.reverse_reverse, String.ofList_toList, String.ofList_toList]

/-- **`Legible`** -- no name breaks a line, and every rate is one word. -/
structure Legible (parts : List (String × List (String × String))) : Prop where
  groups : ∀ s ∈ parts, '\n' ∉ s.1.toList
  functions : ∀ s ∈ parts, ∀ row ∈ s.2, '\n' ∉ row.1.toList
  rates : ∀ s ∈ parts, ∀ row ∈ s.2, ' ' ∉ row.2.toList ∧ '\n' ∉ row.2.toList

theorem Table.legible_printed {t : Table} (h : t.OneLine) : Legible t.printed where
  groups := by
    intro s hs
    obtain ⟨part, hpart, rfl⟩ := List.mem_map.mp hs
    -- A section has a row, and its group is that of the row.
    obtain ⟨hne, hnamed⟩ := sections_named t part hpart
    obtain ⟨r, hr⟩ := List.exists_mem_of_ne_nil part.2 hne
    rw [← hnamed r hr]
    exact (h r (mem_of_mem_section hpart hr)).1
  functions := by
    intro s hs row hrow
    obtain ⟨part, hpart, rfl⟩ := List.mem_map.mp hs
    obtain ⟨r, hr, rfl⟩ := List.mem_map.mp hrow
    exact (h r (mem_of_mem_section hpart hr)).2
  rates := by
    intro s hs row hrow
    obtain ⟨part, -, rfl⟩ := List.mem_map.mp hs
    obtain ⟨r, -, rfl⟩ := List.mem_map.mp hrow
    rw [rateText, String.toList_ofList]
    exact ShownRate.text_plain _

variable {parts : List (String × List (String × String))}

/-- No line of a report is broken in two. -/
theorem Legible.lines (h : Legible parts) : ∀ line ∈ reportLines parts, '\n' ∉ line := by
  refine List.forall_mem_cons.mpr ⟨by decide, ?_⟩
  intro line hline
  obtain ⟨s, hs, hline⟩ := List.mem_flatMap.mp hline
  rcases List.mem_append.mp hline with hhead | hrow
  · have hgroup := h.groups s hs
    simp only [headLines, List.mem_cons, List.not_mem_nil, or_false] at hhead
    rcases hhead with rfl | rfl | rfl | rfl | rfl
    · exact List.not_mem_nil
    · simp [hgroup]
    · exact List.not_mem_nil
    · decide
    · decide
  · obtain ⟨row, hmem, rfl⟩ := List.mem_map.mp hrow
    simp [rowLine, h.functions s hs row hmem, (h.rates s hs row hmem).2]

theorem readLines_rows (group : String) {rows : List (String × String)}
    (h : ∀ row ∈ rows, ' ' ∉ row.2.toList) (lines : List (List Char)) :
    readLines group (rows.map rowLine ++ lines) =
      rows.map (fun row => (group, row)) ++ readLines group lines := by
  induction rows with
  | nil => rfl
  | cons row rows ih =>
      obtain ⟨hrow, hrows⟩ := List.forall_mem_cons.mp h
      rw [List.map_cons, List.map_cons, List.cons_append, List.cons_append, ← ih hrows]
      -- The line starts with a bar, so it is not the empty line that opens a section.
      show (group, readRow (rowLine row)) :: _ = _
      rw [readRow_rowLine hrow]

theorem readLines_head (group new : String) (lines : List (List Char)) :
    readLines group (headLines new ++ lines) = readLines new lines := by
  show readLines (String.ofList new.toList) lines = _
  rw [String.ofList_toList]

/-- The sections are read one after the other, each with its own group. -/
theorem readLines_sections (group : String) (h : Legible parts) :
    readLines group (parts.flatMap sectionLines) = rowsOf parts := by
  induction parts generalizing group with
  | nil => rfl
  | cons s parts ih =>
      have hrest : Legible parts :=
        ⟨(List.forall_mem_cons.mp h.groups).2, (List.forall_mem_cons.mp h.functions).2,
          (List.forall_mem_cons.mp h.rates).2⟩
      have hwords : ∀ row ∈ s.2, ' ' ∉ row.2.toList := fun row hrow =>
        (h.rates s List.mem_cons_self row hrow).1
      rw [List.flatMap_cons, sectionLines, List.append_assoc, readLines_head,
        readLines_rows s.1 hwords, ih s.1 hrest]
      rfl

/-- **`readReport_text`** -- from the text of a report its rows are read back, in order and with
their groups. -/
theorem readReport_text {t : Table} (h : t.OneLine) : readReport t.text = t.map Row.triple := by
  have hlegible := Table.legible_printed h
  rw [readReport, ← unlines_reportLines, linesOf_unlines hlegible.lines]
  show readLines "" (t.printed.flatMap sectionLines) = _
  rw [readLines_sections "" hlegible, Table.rowsOf_printed]

/-! ## The same report -/

/-- Does the first of two triples stand before the second? -/
def ShownBefore (a b : Shown) : Prop := a.1 < b.1 ∨ a.1 = b.1 ∧ a.2.1 < b.2.1

instance : Std.Irrefl ShownBefore where
  irrefl := by
    rintro a (h | ⟨-, h⟩)
    · exact List.lt_irrefl _ h
    · exact List.lt_irrefl _ h

instance : Std.Antisymm ShownBefore where
  antisymm := by
    rintro a b (h | ⟨hg, h⟩) (h' | ⟨hg', h'⟩)
    · exact absurd (List.lt_trans h h') (List.lt_irrefl _)
    · exact absurd (hg' ▸ h) (List.lt_irrefl _)
    · exact absurd (hg ▸ h') (List.lt_irrefl _)
    · exact absurd (List.lt_trans h h') (List.lt_irrefl _)

variable {t u : Table}

/-- In an ordered table the triples come in one order, whatever their rates are. -/
theorem Table.map_triple_eq (ht : t.Ordered) (hu : u.Ordered) (h : t.triples = u.triples) :
    t.map Row.triple = u.map Row.triple := by
  have ordered : ∀ {t : Table}, t.Ordered → (t.map Row.triple).Pairwise ShownBefore := by
    intro t ht
    rw [List.pairwise_map]
    exact ht
  exact (ordered ht).eq_of_mem_iff (ordered hu) fun x => Set.ext_iff.mp h x

/-- **`Table.text_eq_iff`** -- two tables are written alike exactly if they show the same
triples. -/
theorem Table.text_eq_iff (ht : t.Ordered) (hu : u.Ordered) (lines : t.OneLine)
    (lines' : u.OneLine) : t.text = u.text ↔ t.triples = u.triples := by
  constructor
  · intro h
    rw [triples, triples, ← readReport_text lines, ← readReport_text lines', h]
  · intro h
    rw [← unlines_reportLines, ← unlines_reportLines, printed_eq, printed_eq,
      map_triple_eq ht hu h]

theorem contentOf_inj : contentOf t = contentOf u ↔ t.text = u.text := by
  rw [contentOf, contentOf, String.toUTF8_eq_toByteArray, String.toUTF8_eq_toByteArray,
    String.toByteArray_inj, String.ofList_inj]

/-! ## What is collected -/

/-- **`Collected`** -- this table is collected below the source of the disk. -/
def Collected (d : Disk) (t : Table) : Prop :=
  ∃ entries, d.find? source = some (.folder entries) ∧ collect entries = .ok t

variable {d e : Disk}

theorem Collected.ordered (h : Collected d t) : t.Ordered := by
  obtain ⟨entries, -, hcollect⟩ := h
  by_cases hread : ∀ s ∈ samplesIn entries, s.Readable
  · rw [collect_readable hread] at hcollect
    rw [← Except.ok.inj hcollect]
    exact Table.ordered_ofRows _
  · push Not at hread
    obtain ⟨s, hs, hr⟩ := hread
    obtain ⟨error, herror⟩ := collect_unreadable hs hr
    rw [herror] at hcollect
    exact absurd hcollect nofun

/-- The report that is written is the table collected. -/
theorem Collected.report (h : Collected d t) (done : (generate d).succeeded = true) :
    (generate d).disk.find? target = some (.file (contentOf t)) := by
  obtain ⟨entries, hsource, hcollect⟩ := h
  rw [generate_folder hsource, hcollect] at done ⊢
  have hfree : ¬ Obstructed d := by
    intro hobstructed
    rw [(save_obstructed t hobstructed).1] at done
    exact absurd done nofun
  exact (save_free t hfree).2.2

/-- A report that succeeds has collected the rows of the walk. -/
theorem collected_of_succeeded {entries : List (Name × Node)} (distinct : d.Distinct)
    (hsource : d.find? source = some (.folder entries)) (done : (generate d).succeeded = true) :
    Collected d (tableOf entries) := by
  have hfree : ¬ Blocked d := not_blocked_of_succeeded distinct done
  have hread : ∀ s ∈ samplesIn entries, s.Readable :=
    (readable_iff distinct hsource).mpr fun unusable => hfree (.measurement unusable)
  exact ⟨entries, hsource, collect_readable hread⟩

/-- **`generate_same_text_iff`** -- two tables without line feeds in their names are written as the
same text exactly if they show the same groups, functions and rates. So the reports on two disks
are the same file exactly if the tables collected there show the same. -/
theorem generate_same_text_iff (lines : t.OneLine) (lines' : u.OneLine) :
    (t.Ordered → u.Ordered → (contentOf t = contentOf u ↔ t.triples = u.triples)) ∧
      ∀ d e, Collected d t → Collected e u →
        (generate d).succeeded = true → (generate e).succeeded = true →
        ((generate d).disk.find? target = (generate e).disk.find? target ↔
          t.triples = u.triples) := by
  have hcontent (ht : t.Ordered) (hu : u.Ordered) :
      contentOf t = contentOf u ↔ t.triples = u.triples := by
    rw [contentOf_inj, Table.text_eq_iff ht hu lines lines']
  refine ⟨hcontent, ?_⟩
  intro d e hd he done done'
  rw [hd.report done, he.report done', ← hcontent hd.ordered he.ordered, Option.some.injEq,
    Node.file.injEq]

/-- Folders whose names look like parts of a report, in this listing order, with the text of their
estimates. -/
def barredEntries (functions : List String) (estimates : String) : List (Name × Node) :=
  [("## a", .folder (functions.map fun name => (.ofText name, benchmarkFolder estimates)))]

/-- One operation per second. -/
def steadyEntries : List (Name × Node) :=
  barredEntries ["f | 1", "|---|---|"] "\x7b\"mean\":\x7b\"point_estimate\":1e9\x7d\x7d"

/-- The same names in another order, and one operation and a quarter per second. -/
def hastyEntries : List (Name × Node) :=
  barredEntries ["|---|---|", "f | 1"] "\x7b\"mean\":\x7b\"point_estimate\":8e8\x7d\x7d"

/-- The disk with these folders in its source. -/
def sourceDisk (entries : List (Name × Node)) : Disk :=
  .holding [("target", .folder [("criterion", .folder entries)])]

theorem generate_same_text_iff_barred :
    (tableOf steadyEntries).OneLine ∧ (tableOf hastyEntries).OneLine ∧
    (tableOf steadyEntries).triples = (tableOf hastyEntries).triples ∧
    (generate (sourceDisk steadyEntries)).disk.find? target =
      (generate (sourceDisk hastyEntries)).disk.find? target := by
  have lines : (tableOf steadyEntries).OneLine := by decide +kernel
  have lines' : (tableOf hastyEntries).OneLine := by decide +kernel
  have hshown : (tableOf steadyEntries).triples = (tableOf hastyEntries).triples :=
    congrArg (fun shown => {x | x ∈ shown}) (by decide +kernel)
  have done : (generate (sourceDisk steadyEntries)).succeeded = true := by decide +kernel
  have done' : (generate (sourceDisk hastyEntries)).succeeded = true := by decide +kernel
  have hiff := (generate_same_text_iff lines lines').2 _ _
    (collected_of_succeeded (by decide) rfl done) (collected_of_succeeded (by decide) rfl done')
    done done'
  exact ⟨lines, lines', hshown, hiff.mpr hshown⟩

end SharedCells.Report
