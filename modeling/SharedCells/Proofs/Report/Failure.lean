/-
# SharedCells.Proofs.Report.Failure -- when no report is written, and what then becomes of the disk

`Blocked` lists what keeps the report from being written. The walk comes first: it ends at the
first measurement that is `Unusable`, wherever it stands. What stands where no text names the group
or the function is no measurement, and no obstacle either. Only then the folder of the report is
made and the report written, and these two fail for what was on the disk before, and a
folder is never made for a report that cannot be written.

* `generate_blocked`, `generate_free` : the two outcomes where the source is a folder.
* `generate_fails_exactly` : failure means blocked, a failed report leaves the disk as it was, and
  a written one changes nothing but the report.
-/

import SharedCells.Proofs.Disk.Changes
import SharedCells.Proofs.Report.Collect

namespace SharedCells.Report

/-- **`Unusable`** -- some measurement cannot be used: its estimates are no JSON, or the file
beside them is text but no JSON. -/
inductive Unusable (d : Disk) : Prop
  | estimates {group function : String} {place : List Name} {content : ByteArray}
      (measured : Measured d group function place content)
      (unreadable : documentOf? content = none)
  | benchmark {group function text : String} {place : List Name} {content : ByteArray}
      (measured : Measured d group function place content)
      (beside : benchmarkBeside d place = some text)
      (unreadable : (Json.read text).isOk = false)

/-- **`Obstructed`** -- something stands where the report or its folder has to be. -/
inductive Obstructed (d : Disk) : Prop
  | folder {content : ByteArray} (stands : d.find? [folder] = some (.file content))
  | target {entries : List (Name × Node)} (stands : d.find? target = some (.folder entries))

/-- **`Blocked`** -- what keeps the report from being written. -/
inductive Blocked (d : Disk) : Prop
  | source {content : ByteArray} (stands : d.find? source = some (.file content))
  | measurement (unusable : Unusable d)
  | disk {entries : List (Name × Node)} (found : d.find? source = some (.folder entries))
      (obstructed : Obstructed d)

variable {d : Disk} {entries : List (Name × Node)}

/-! ## Reading the measurements -/

/-- A measurement stands below the source, which therefore is a folder. -/
theorem Measured.source_found {group function : String} {place : List Name}
    {content : ByteArray} (h : Measured d group function place content) :
    ∃ entries, d.find? source = some (.folder entries) := by
  obtain ⟨below, hplace, -⟩ := Disk.find?_concat_iff.mp h.file
  exact Disk.find?_of_prefix hplace h.below

theorem Unusable.source_found (h : Unusable d) :
    ∃ entries, d.find? source = some (.folder entries) := by
  cases h with
  | estimates measured => exact measured.source_found
  | benchmark measured => exact measured.source_found

/-- The walk can read every sample exactly if no measurement is unusable. -/
theorem readable_iff (distinct : d.Distinct) (hsource : d.find? source = some (.folder entries)) :
    (∀ s ∈ samplesIn entries, s.Readable) ↔ ¬ Unusable d := by
  constructor
  · intro h hd
    cases hd with
    | estimates measured unreadable =>
        have hs := h _ (measured.mem_samples distinct hsource)
        exact hs.1 unreadable
    | benchmark measured beside unreadable =>
        have hs := h _ (measured.mem_samples distinct hsource)
        rw [hs.2 _ beside] at unreadable
        exact absurd unreadable nofun
  · intro hd s hs
    obtain ⟨measured, beside⟩ := (mem_samples_iff distinct hsource).mp hs
    refine ⟨fun hnone => hd (.estimates measured hnone), fun text htext => ?_⟩
    by_contra hfault
    exact hd (.benchmark measured (beside ▸ htext) (Bool.eq_false_iff.mpr hfault))

/-! ## Writing the report -/

/-- The content of the file that a table is written to. -/
def contentOf (table : Table) : ByteArray := (String.ofList table.text).toUTF8

/-- Where the report is written, on the whole disk. -/
theorem target_place (d : Disk) :
    d.here ++ target = d.here ++ [folder] ++ [Name.ofText "report.md"] :=
  List.append_cons d.here folder _

/-- The report can be written where its folder is there and no folder has its name. -/
theorem write_target_ok_iff (d : Disk) (content : ByteArray) :
    (∃ after, d.write (d.here ++ target) content = .ok after) ↔
      (∃ below, d.find? [folder] = some (.folder below)) ∧
        ¬ ∃ below, d.find? target = some (.folder below) := by
  rw [target_place, Disk.write_ok_iff, ← target_place]
  rfl

theorem write_target_found {after : Disk} {content : ByteArray}
    (h : d.write (d.here ++ target) content = .ok after) :
    after.find? target = some (.file content) := by
  rw [target_place] at h
  rw [Disk.find?, (Disk.write_changed h).here, target_place]
  exact Disk.write_found h

theorem write_target_changed {after : Disk} {content : ByteArray}
    (h : d.write (d.here ++ target) content = .ok after) :
    d.ChangedAt (d.here ++ target) after := by
  rw [target_place] at h ⊢
  exact Disk.write_changed h

/-- Where something stands in the report's place, its folder is there. -/
theorem folder_of_target {node : Node} (h : d.find? target = some node) :
    ∃ below, d.find? [folder] = some (.folder below) := by
  have hplace : d.find? ([folder] ++ [Name.ofText "report.md"]) = some node := h
  obtain ⟨below, hbelow, -⟩ := Disk.find?_concat_iff.mp hplace
  exact ⟨below, hbelow⟩

/-- The folder of the report is above it. -/
theorem folder_prefix_target (d : Disk) : d.here ++ [folder] <+: d.here ++ target := by
  rw [target_place]
  exact List.prefix_append ..

theorem target_beyond_folder (d : Disk) : ¬ d.here ++ target <+: d.here ++ [folder] := by
  rw [List.prefix_append_right_inj]
  decide

theorem save_of_folder {made : Disk} (table : Table) (h : d.ensureFolder folder = .ok made) :
    save d table = match made.write (made.here ++ target) (contentOf table) with
      | .error e => ⟨.error (.writing (.join target) e), made, []⟩
      | .ok after =>
        ⟨.ok (), after, [⟨.info, "report written", [("path", (Path.join target).shown)]⟩]⟩ := by
  rw [save, h]
  rfl

theorem save_obstructed (table : Table) (h : Obstructed d) :
    (save d table).succeeded = false ∧ (save d table).disk = d := by
  cases h with
  | folder stands =>
      cases hfolder : d.ensureFolder folder with
      | error e =>
          rw [save, hfolder]
          exact ⟨rfl, rfl⟩
      | ok made => exact absurd stands (Disk.ensureFolder_ok_iff.mp ⟨made, hfolder⟩ _)
  | target stands =>
      -- The folder is there already, so none is made.
      obtain ⟨below, hbelow⟩ := folder_of_target stands
      rw [save_of_folder table (Disk.ensureFolder_of_found hbelow)]
      cases hwrite : d.write (d.here ++ target) (contentOf table) with
      | error e => exact ⟨rfl, rfl⟩
      | ok after =>
          exact absurd ⟨_, stands⟩ ((write_target_ok_iff d _).mp ⟨after, hwrite⟩).2

theorem save_free (table : Table) (h : ¬ Obstructed d) :
    (save d table).succeeded = true ∧ d.ChangedAt (d.here ++ target) (save d table).disk ∧
      (save d table).disk.find? target = some (.file (contentOf table)) := by
  obtain ⟨made, hfolder⟩ := Disk.ensureFolder_ok_iff.mpr fun _ stands => h (.folder stands)
  have hchanged := Disk.ensureFolder_changed hfolder
  -- The folder has just been made, and what is in the report's way was there before.
  have hfree : ¬ ∃ below, made.find? target = some (.folder below) := by
    rintro ⟨below, stands⟩
    rw [Disk.find?, hchanged.here, hchanged.elsewhere _ (target_beyond_folder d)] at stands
    exact h (.target stands)
  obtain ⟨after, hwrite⟩ :=
    (write_target_ok_iff made (contentOf table)).mpr ⟨Disk.ensureFolder_found hfolder, hfree⟩
  have hwritten := write_target_changed hwrite
  rw [hchanged.here] at hwritten
  rw [save_of_folder table hfolder, hwrite]
  exact ⟨rfl, hchanged.trans hwritten (folder_prefix_target d), write_target_found hwrite⟩

/-! ## The whole command -/

theorem generate_missing (h : d.find? source = none) :
    (generate d).succeeded = true ∧ (generate d).disk = d := by
  rw [generate, h]
  exact ⟨rfl, rfl⟩

theorem generate_folder (h : d.find? source = some (.folder entries)) :
    generate d = match collect entries with
      | .error failure => ⟨.error failure, d, []⟩
      | .ok table => save d table := by
  unfold generate
  split
  case h_1 hnone =>
    rw [h] at hnone
    exact absurd hnone nofun
  case h_2 content hfile =>
    rw [h] at hfile
    exact absurd hfile nofun
  case h_3 found hfolder =>
    obtain rfl := Node.entries_unique h hfolder
    rfl

/-- However late the walk or the writing fails, nothing has been written before. -/
theorem generate_blocked (distinct : d.Distinct) (h : Blocked d) :
    (generate d).succeeded = false ∧ (generate d).disk = d := by
  cases h with
  | source stands =>
      rw [generate, stands]
      exact ⟨rfl, rfl⟩
  | measurement unusable =>
      obtain ⟨entries, hsource⟩ := unusable.source_found
      obtain ⟨s, hs, hr⟩ : ∃ s ∈ samplesIn entries, ¬ s.Readable := by
        by_contra hall
        refine (readable_iff distinct hsource).mp ?_ unusable
        intro s hs
        by_contra hr
        exact hall ⟨s, hs, hr⟩
      obtain ⟨e, he⟩ := collect_unreadable hs hr
      rw [generate_folder hsource, he]
      exact ⟨rfl, rfl⟩
  | disk hsource obstructed =>
      rw [generate_folder hsource]
      cases collect _ with
      | error failure => exact ⟨rfl, rfl⟩
      | ok table => exact save_obstructed table obstructed

/-- Where nothing blocks it, the report is written, and it is the table of all samples. -/
theorem generate_free (distinct : d.Distinct) (h : ¬ Blocked d)
    (hsource : d.find? source = some (.folder entries)) :
    (generate d).succeeded = true ∧ d.ChangedAt (d.here ++ target) (generate d).disk ∧
      (generate d).disk.find? target =
        some (.file (contentOf (tableOf entries))) := by
  have hread : ∀ s ∈ samplesIn entries, s.Readable :=
    (readable_iff distinct hsource).mpr fun unusable => h (.measurement unusable)
  rw [generate_folder hsource, collect_readable hread]
  exact save_free _ fun obstructed => h (.disk hsource obstructed)

theorem not_blocked_of_succeeded (distinct : d.Distinct) (h : (generate d).succeeded = true) :
    ¬ Blocked d := by
  intro hb
  rw [(generate_blocked distinct hb).1] at h
  exact absurd h nofun

theorem source_cases (h : ¬ Blocked d) :
    d.find? source = none ∨ ∃ entries, d.find? source = some (.folder entries) := by
  cases hsource : d.find? source with
  | none => exact Or.inl rfl
  | some node =>
      cases node with
      | file content => exact absurd (.source hsource) h
      | folder entries => exact Or.inr ⟨entries, rfl⟩

/-- **`generate_fails_exactly`** -- the report fails exactly if it is blocked, and then the disk is
as it was. A report that succeeds changes nothing but the report and its folder, and nothing at
all if there is no source. -/
theorem generate_fails_exactly (d : Disk) (distinct : d.Distinct) :
    ((generate d).succeeded = false ↔ Blocked d) ∧
      ((generate d).succeeded = false → (generate d).disk = d) ∧
      ((generate d).succeeded = true →
        d.ChangedAt (d.here ++ target) (generate d).disk ∧
        (d.find? source = none → (generate d).disk = d) ∧
        ((∃ entries, d.find? source = some (.folder entries)) →
          (∃ below, (generate d).disk.find? [folder] = some (.folder below)) ∧
          ∃ content, (generate d).disk.find? target = some (.file content))) := by
  have hfailed : (generate d).succeeded = false → Blocked d := by
    intro h
    by_contra hb
    -- Unblocked, it succeeds with and without a source.
    have hdone : (generate d).succeeded = true := by
      rcases source_cases hb with hmissing | ⟨entries, hsource⟩
      · exact (generate_missing hmissing).1
      · exact (generate_free distinct hb hsource).1
    rw [hdone] at h
    exact absurd h nofun
  refine ⟨⟨hfailed, fun hb => (generate_blocked distinct hb).1⟩, ?_, ?_⟩
  · intro h
    exact (generate_blocked distinct (hfailed h)).2
  · intro h
    have hb := not_blocked_of_succeeded distinct h
    rcases source_cases hb with hmissing | ⟨entries, hsource⟩
    · have hdisk := (generate_missing hmissing).2
      refine ⟨?_, fun _ => hdisk, ?_⟩
      · rw [hdisk]
        exact .refl d _
      · rintro ⟨entries, hsource⟩
        rw [hmissing] at hsource
        exact absurd hsource nofun
    · obtain ⟨-, hchanged, hreport⟩ := generate_free distinct hb hsource
      refine ⟨hchanged, ?_, fun _ => ⟨folder_of_target hreport, _, hreport⟩⟩
      intro hmissing
      rw [hsource] at hmissing
      exact absurd hmissing nofun

/-- A disk with no measurement, and a file where the folder of the report has to be. -/
def obstructedDisk : Disk :=
  .holding [("target", .folder [("criterion", .folder [])]),
    ("benchmark_results", .file "kept".toUTF8)]

/-- What would be an unusable measurement, if the group's folder had a text for a name. -/
def namelessDisk : Disk :=
  .holding [("target", .folder [("criterion", .folder [(⟨[0xFF]⟩, .folder [("f", .folder
    [("new", .folder [("estimates.json", .file "\x7b".toUTF8)])])])])])]

theorem generate_fails_exactly_obstructed :
    (obstructedDisk.Distinct ∧ (generate obstructedDisk).succeeded = false ∧
      (generate obstructedDisk).disk = obstructedDisk) ∧
    (namelessDisk.Distinct ∧ (generate namelessDisk).succeeded = true ∧
      ¬ Blocked namelessDisk) := by
  have distinct : obstructedDisk.Distinct := by decide +kernel
  obtain ⟨hfails, hkept, -⟩ := generate_fails_exactly obstructedDisk distinct
  have found : obstructedDisk.find? source = some (.folder []) := rfl
  have stands : obstructedDisk.find? [folder] = some (.file "kept".toUTF8) := rfl
  have hfailed := hfails.mpr (.disk found (.folder stands))
  have distinct' : namelessDisk.Distinct := by decide +kernel
  have done : (generate namelessDisk).succeeded = true := by decide +kernel
  refine ⟨⟨distinct, hfailed, hkept hfailed⟩, distinct', done, fun hblocked => ?_⟩
  rw [(generate_fails_exactly namelessDisk distinct').1.mpr hblocked] at done
  exact absurd done nofun

end SharedCells.Report
