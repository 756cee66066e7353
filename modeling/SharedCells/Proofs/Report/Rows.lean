/-
# SharedCells.Proofs.Report.Rows -- how many rows a report has

A row belongs to a group and a function, and these are the last two names above the folder of a
measurement. The walk goes to any depth, so two measurements can have the same last names, as
`g1/f/p` and `g2/f/p` have; then the one found later drives out the other.

The report therefore has one row for each pair of names that some measurement counts for. That is
one row for each measurement exactly if no two of them count for the same pair, and then the order
in which folders are listed does not matter either.

* `length_tableOf` : the rows of the table are as many as the keys that count.
* `generate_rows_counted` : the rows of the report, and when no measurement is lost.
* `generate_loses_measurement` : two measurements with one row, which shows the one found later.
-/

import Mathlib.Data.Set.Card
import SharedCells.Proofs.Report.Document

namespace SharedCells.Report

/-! ## Rows and keys -/

/-- The group and the function of a row. -/
def Row.key (r : Row) : String × String := (r.group, r.function)

theorem Row.sameKey_iff (a b : Row) : a.SameKey b ↔ a.key = b.key := by
  unfold Row.SameKey Row.key
  rw [Prod.mk.injEq]

namespace Table

variable {t : Table} {r : Row}

/-- Rows that stand one before the other differ in their keys. -/
theorem Ordered.nodup_keys (ordered : t.Ordered) : (t.map Row.key).Nodup := by
  rw [List.Nodup, List.pairwise_map]
  refine ordered.imp ?_
  intro a b before same
  exact before.not_sameKey ((Row.sameKey_iff a b).mpr same)

/-- The table holds no row that was not inserted. -/
theorem mem_of_mem_ofRows {rows : List Row} (h : r ∈ ofRows rows) : r ∈ rows := by
  induction rows using List.reverseRecOn with
  | nil => exact absurd h nofun
  | append_singleton rows row ih =>
      rw [ofRows_concat, mem_insert (ordered_ofRows rows)] at h
      apply List.mem_append.mpr
      rcases h with rfl | ⟨hr, -⟩
      · exact Or.inr List.mem_cons_self
      · exact Or.inl (ih hr)

/-- No key is lost, though the row that had it may be. -/
theorem key_mem_ofRows {rows : List Row} (h : r ∈ rows) :
    ∃ kept ∈ ofRows rows, kept.key = r.key := by
  induction rows using List.reverseRecOn with
  | nil => exact absurd h nofun
  | append_singleton rows row ih =>
      have hmem : ∀ kept, kept ∈ ofRows (rows ++ [row]) ↔
          kept = row ∨ kept ∈ ofRows rows ∧ ¬ row.SameKey kept := by
        intro kept
        rw [ofRows_concat, mem_insert (ordered_ofRows rows)]
      rcases List.mem_append.mp h with hr | hr
      · obtain ⟨kept, hkept, hkey⟩ := ih hr
        -- The last row drives the kept one out, and then has its key.
        by_cases hdriven : row.SameKey kept
        · have hrow : row.key = r.key := ((Row.sameKey_iff row kept).mp hdriven).trans hkey
          exact ⟨row, (hmem row).mpr (Or.inl rfl), hrow⟩
        · exact ⟨kept, (hmem kept).mpr (Or.inr ⟨hkept, hdriven⟩), hkey⟩
      · obtain rfl := List.mem_singleton.mp hr
        exact ⟨r, (hmem r).mpr (Or.inl rfl), rfl⟩

end Table

/-! ## What counts, by place and by key -/

/-- **`countedPlaces`** -- the folders of the measurements that count. -/
def countedPlaces (d : Disk) : Set (List Name) :=
  {place | ∃ group function rate, Counts d group function place rate}

/-- **`countedKeys`** -- the groups and functions that some measurement counts for. -/
def countedKeys (d : Disk) : Set (String × String) :=
  {key | ∃ place rate, Counts d key.1 key.2 place rate}

/-- The last two names above the folder of a measurement, which are texts. -/
def keyOf (place : List Name) : String × String :=
  match place.reverse with
  | _ :: function :: group :: _ => (group.text?.getD "", function.text?.getD "")
  | _ => ("", "")

variable {d : Disk} {entries : List (Name × Node)}

theorem Counts.keyOf_eq {group function : String} {place : List Name} {rate : Binary64}
    (h : Counts d group function place rate) : keyOf place = (group, function) := by
  obtain ⟨estimates, measured, -⟩ := h
  obtain ⟨above, hnamed⟩ := measured.named
  rw [hnamed, keyOf]
  simp [Name.text?_ofText]

theorem countedKeys_eq_image (d : Disk) : countedKeys d = keyOf '' countedPlaces d := by
  ext ⟨group, function⟩
  constructor
  · rintro ⟨place, rate, h⟩
    exact ⟨place, ⟨group, function, rate, h⟩, h.keyOf_eq⟩
  · rintro ⟨place, ⟨group', function', rate, h⟩, hkey⟩
    rw [h.keyOf_eq] at hkey
    obtain ⟨rfl, rfl⟩ := Prod.mk.inj hkey
    exact ⟨place, rate, h⟩

/-- One measurement for each key means that the key tells the place. -/
theorem oneEach_iff_injOn (d : Disk) : OneEach d ↔ Set.InjOn keyOf (countedPlaces d) := by
  constructor
  · rintro one place ⟨group, function, rate, h⟩ place' ⟨group', function', rate', h'⟩ hkey
    rw [h.keyOf_eq, h'.keyOf_eq] at hkey
    obtain ⟨rfl, rfl⟩ := Prod.mk.inj hkey
    exact one group function place place' rate rate' h h'
  · intro inj group function place place' rate rate' h h'
    have hkey : keyOf place = keyOf place' := by rw [h.keyOf_eq, h'.keyOf_eq]
    exact inj ⟨group, function, rate, h⟩ ⟨group, function, rate', h'⟩ hkey

/-- The walk is finite, and it finds every measurement. -/
theorem countedPlaces_finite (distinct : d.Distinct)
    (hsource : d.find? source = some (.folder entries)) : (countedPlaces d).Finite := by
  refine Set.Finite.subset ((samplesIn entries).map Sample.place).finite_toSet ?_
  rintro place ⟨group, function, rate, estimates, measured, -⟩
  exact List.mem_map.mpr ⟨_, measured.mem_samples distinct hsource, rfl⟩

theorem keys_tableOf (distinct : d.Distinct)
    (hsource : d.find? source = some (.folder entries)) :
    {key | key ∈ (tableOf entries).map Row.key} = countedKeys d := by
  ext ⟨group, function⟩
  constructor
  · intro h
    obtain ⟨r, hr, hkey⟩ := List.mem_map.mp h
    obtain ⟨rfl, rfl⟩ := Prod.mk.inj hkey
    obtain ⟨place, hcounts⟩ := (mem_rows_iff distinct hsource r).mp (Table.mem_of_mem_ofRows hr)
    exact ⟨place, r.rate, hcounts⟩
  · rintro ⟨place, rate, hcounts⟩
    have hrow := (mem_rows_iff distinct hsource ⟨group, function, rate⟩).mpr ⟨place, hcounts⟩
    obtain ⟨kept, hkept, hkey⟩ := Table.key_mem_ofRows hrow
    exact List.mem_map.mpr ⟨kept, hkept, hkey⟩

/-- **`length_tableOf`** -- the table has as many rows as there are keys that count. -/
theorem length_tableOf (distinct : d.Distinct)
    (hsource : d.find? source = some (.folder entries)) :
    (tableOf entries).length = (countedKeys d).ncard := by
  have nodup : ((tableOf entries).map Row.key).Nodup := (Table.ordered_ofRows _).nodup_keys
  calc (tableOf entries).length
      = ((tableOf entries).map Row.key).length := (List.length_map ..).symm
    _ = ((tableOf entries).map Row.key).toFinset.card := (List.toFinset_card_of_nodup nodup).symm
    _ = {key | key ∈ (tableOf entries).map Row.key}.ncard := by
        rw [← Set.ncard_coe_finset, List.coe_toFinset]
    _ = (countedKeys d).ncard := by rw [keys_tableOf distinct hsource]

/-! ## The rows of the report -/

/-- **`rowCount`** -- the rows of a report, over all groups. -/
def rowCount (sections : Sections) : Nat := (sections.map fun s => s.2.length).sum

theorem rowCount_shown (t : Table) : rowCount (shown t) = t.length := by
  have hflat : (t.sections.flatMap Prod.snd).length = t.length := by rw [Table.sections_flat]
  rw [← hflat, List.length_flatMap, rowCount, shown, List.map_map]
  congr 2
  funext s
  exact List.length_map ..

/-- A row shows the rate of a measurement that counts for it. -/
theorem counts_of_mem_shown (distinct : d.Distinct)
    (hsource : d.find? source = some (.folder entries)) {s : String × List (String × Binary64)}
    (hs : s ∈ shown (tableOf entries)) {row : String × Binary64} (hrow : row ∈ s.2) :
    ∃ place, Counts d s.1 row.1 place row.2 := by
  have hr : (⟨s.1, row.1, row.2⟩ : Row) ∈ tableOf entries :=
    (mem_shown_iff _ s.1 row.1 row.2).mp ⟨s.2, hs, hrow⟩
  exact (mem_rows_iff distinct hsource _).mp (Table.mem_of_mem_ofRows hr)

/-- Without a source nothing is measured. -/
theorem countedPlaces_missing (h : d.find? source = none) : countedPlaces d = ∅ := by
  ext place
  constructor
  · rintro ⟨group, function, rate, estimates, measured, -⟩
    obtain ⟨entries, hsource⟩ := measured.source_found
    rw [h] at hsource
    exact absurd hsource nofun
  · exact nofun

/-- **`generate_rows_counted`** -- a report that succeeds has a row for each group and function that
a measurement counts for, with the rate of such a measurement. It has a row for each measurement
exactly if no two of them count for the same function of a group, and then every listing of the
same files gives the same report. Without a source nothing counts, and nothing is written. -/
theorem generate_rows_counted (d : Disk) (distinct : d.Distinct)
    (done : (generate d).succeeded = true) :
    (d.find? source = none → countedPlaces d = ∅ ∧ (generate d).disk = d) ∧
    ∀ entries, d.find? source = some (.folder entries) → ∃ sections,
      (generate d).disk.find? target = some (.file (documentText sections).toUTF8) ∧
      (∀ s ∈ sections, ∀ row ∈ s.2, ∃ place, Counts d s.1 row.1 place row.2) ∧
      rowCount sections = (countedKeys d).ncard ∧
      (countedPlaces d).Finite ∧
      rowCount sections ≤ (countedPlaces d).ncard ∧
      (rowCount sections = (countedPlaces d).ncard ↔ OneEach d) ∧
      (OneEach d → ∀ e : Disk, e.Distinct → d.SameTree e →
        (generate e).disk.find? target = some (.file (documentText sections).toUTF8)) := by
  constructor
  · intro hmissing
    exact ⟨countedPlaces_missing hmissing, (generate_missing hmissing).2⟩
  intro entries hsource
  have hfree : ¬ Blocked d := not_blocked_of_succeeded distinct done
  have hfinite : (countedPlaces d).Finite := countedPlaces_finite distinct hsource
  have hcount : rowCount (shown (tableOf entries)) = (countedKeys d).ncard := by
    rw [rowCount_shown, length_tableOf distinct hsource]
  have himage : rowCount (shown (tableOf entries)) = (keyOf '' countedPlaces d).ncard := by
    rw [hcount, countedKeys_eq_image]
  have htext : ∀ t, contentOf t = (documentText (shown t)).toUTF8 := contentOf_eq
  refine ⟨shown (tableOf entries), ?_, ?_, hcount, hfinite, ?_, ?_, ?_⟩
  · rw [← htext]
    exact (generate_free distinct hfree hsource).2.2
  · intro s hs row hrow
    exact counts_of_mem_shown distinct hsource hs hrow
  · rw [himage]
    exact Set.ncard_image_le hfinite
  · rw [himage, oneEach_iff_injOn]
    exact Set.ncard_image_iff hfinite
  · intro one e distinct' same
    obtain ⟨entries', hsource'⟩ := same.found_folder hsource
    have hfree' : ¬ Blocked e := fun hb => hfree (hb.of_sameTree same.symm)
    rw [← htext, ← tableOf_sameTree same distinct distinct' hsource hsource' one]
    exact (generate_free distinct' hfree' hsource').2.2

/-! ## A measurement that is lost -/

/-- A group's folder with one parameterised function, and the text of its estimates. -/
def parameterised (group estimates : String) : Name × Node :=
  (group, .folder [("f", .folder [("p", benchmarkFolder estimates)])])

/-- A pass takes two nanoseconds. -/
def fast : String := "\x7b\"mean\":\x7b\"point_estimate\":2\x7d\x7d"

/-- A pass takes four nanoseconds. -/
def slow : String := "\x7b\"mean\":\x7b\"point_estimate\":4\x7d\x7d"

/-- The disk with these benchmarks, in this listing order. -/
def benchmarked (parts : List (Name × Node)) : Disk :=
  .holding [("target", .folder [("criterion", .folder parts)])]

/-- Two groups that use the same parameter of a function of the same name, equally fast. -/
def twinsDisk : Disk := benchmarked [parameterised "g1" fast, parameterised "g2" fast]

/-- The text of the report. -/
def reportOf (d : Disk) : Option String := ((generate d).disk.find? target).bind Node.text?

/-- The order in which two benchmarks are listed does not change the tree. -/
theorem benchmarked_swap {first second : Name} (x y : Node) (h : first ≠ second) :
    (benchmarked [(first, x), (second, y)]).SameTree (benchmarked [(second, y), (first, x)]) := by
  refine .holding (.inside (.inside (Node.sameTree_of_lookup ?_) _) _)
  intro name
  simp only [List.lookup_cons, List.lookup_nil]
  by_cases hname : name = first
  · have hother : name ≠ second := hname ▸ h
    rw [beq_false_of_ne hother, hname, beq_self_eq_true]
  · rw [beq_false_of_ne hname]

/-- Either measurement counts for `p` of the group `f`, whatever the group above is called. -/
theorem twins_count {group : String} (h : group = "g1" ∨ group = "g2") :
    Counts twinsDisk "f" "p" ["target", "criterion", group, "f", "p", "new"]
      (rateOf (.ofNat 1) (.ofNat 2)) := by
  have hcounted : countedRate? none fast.toUTF8 = some (rateOf (.ofNat 1) (.ofNat 2)) := by
    decide +kernel
  have hbelow : source <+: ["target", "criterion", group, "f", "p", "new"] :=
    ⟨[group, "f", "p", "new"], rfl⟩
  rcases h with rfl | rfl
  · exact ⟨fast.toUTF8,
      ⟨hbelow, ⟨["target", "criterion", "g1"], rfl⟩, by decide, by decide, rfl⟩, hcounted⟩
  · exact ⟨fast.toUTF8,
      ⟨hbelow, ⟨["target", "criterion", "g2"], rfl⟩, by decide, by decide, rfl⟩, hcounted⟩

theorem generate_rows_counted_twins :
    (generate twinsDisk).succeeded = true ∧ ¬ OneEach twinsDisk ∧
      ∃ sections,
        (generate twinsDisk).disk.find? target = some (.file (documentText sections).toUTF8) ∧
        rowCount sections < (countedPlaces twinsDisk).ncard := by
  have done : (generate twinsDisk).succeeded = true := by decide +kernel
  have many : ¬ OneEach twinsDisk := by
    intro one
    have hplace := one _ _ _ _ _ _ (twins_count (Or.inl rfl)) (twins_count (Or.inr rfl))
    exact absurd hplace (by decide)
  obtain ⟨sections, htext, -, -, -, hle, hiff, -⟩ :=
    (generate_rows_counted twinsDisk (by decide) done).2 _ rfl
  exact ⟨done, many, sections, htext, lt_of_le_of_ne hle fun heq => many (hiff.mp heq)⟩

/-- Both `g1/f/p` and `g2/f/p` count for the function `p` of the group `f`, which has one row. If
they differ, the row shows the one that is listed later. -/
theorem generate_loses_measurement :
    let report (shown : String) := "# Atomic Cell Benchmark Report\n" ++
      "\n## f\n\n| Function | Ops/s |\n|---|---|\n| p | " ++ shown ++ " |\n"
    let d := benchmarked [parameterised "g1" fast, parameterised "g2" slow]
    let e := benchmarked [parameterised "g2" slow, parameterised "g1" fast]
    ((∃ rate, Counts twinsDisk "f" "p" ["target", "criterion", "g1", "f", "p", "new"] rate) ∧
      (∃ rate, Counts twinsDisk "f" "p" ["target", "criterion", "g2", "f", "p", "new"] rate) ∧
      reportOf twinsDisk = some (report "500.00M")) ∧
    d.SameTree e ∧ reportOf d = some (report "250.00M") ∧ reportOf e = some (report "500.00M") := by
  intro report d e
  refine ⟨⟨⟨_, twins_count (Or.inl rfl)⟩, ⟨_, twins_count (Or.inr rfl)⟩, ?_⟩, ?_, ?_, ?_⟩
  · decide +kernel
  · exact benchmarked_swap _ _ (by decide)
  · decide +kernel
  · decide +kernel

end SharedCells.Report
