/-
# SharedCells.Proofs.Report.Walk -- the walk finds exactly the measurements

Where a measurement lies is said by its place alone: `Measured` asks for the last names of the
place, which are those of texts, and for the file that stands there. The walk knows no places; it
carries the names of the folders above and the entries of the folder it is in. `Found` follows the
walk down one folder at a time, and `mem_below_iff` says that it is the walk.

* `found_iff` : what is found is a file at a place below, seen from the folder it stands in.
* `mem_samples_iff` : the samples below `target/criterion` are the measurements on the disk.
-/

import SharedCells.Proofs.Disk.Distinct
import SharedCells.Proofs.Disk.Places
import SharedCells.Report.Generate

namespace SharedCells.Report

/-- **`Measured`** -- below the source stands a file with the mean time of a group's function, in
the folder at this place. The group and the function are texts: no folder is named after them whose
name is no text. -/
structure Measured (d : Disk) (group function : String) (place : List Name)
    (estimates : ByteArray) : Prop where
  below : source <+: place
  named : ∃ above, place = above ++ [Name.ofText group, Name.ofText function, "new"]
  groupCounts : group ≠ "report"
  functionCounts : function ≠ "report"
  file : d.find? (place ++ [Name.ofText "estimates.json"]) = some (.file estimates)

/-- **`benchmarkBeside`** -- the text of the file that may say how many elements a pass handles. -/
def benchmarkBeside (d : Disk) (place : List Name) : Option String :=
  (d.find? (place ++ [Name.ofText "benchmark.json"])).bind Node.text?

/-- **`samplesIn`** -- the samples that the walk meets from the source on, in its order. -/
def samplesIn (entries : List (Name × Node)) : List Sample :=
  Sample.below source.reverse entries entries

/-! ## One folder at a time -/

/-- **`Found`** -- the sample is a file among the entries, or is found in a folder among them. -/
inductive Found (s : Sample) : List Name → List (Name × Node) → Prop
  | here {trail : List Name} {entries : List (Name × Node)} {name : Name}
      {content : ByteArray} (listed : (name, Node.file content) ∈ entries)
      (sample : Sample.ofFile? trail entries name content = some s) : Found s trail entries
  | inside {trail : List Name} {entries below : List (Name × Node)} {name : Name}
      (listed : (name, Node.folder below) ∈ entries) (found : Found s (name :: trail) below) :
      Found s trail entries

variable {s : Sample} {d : Disk}

mutual

/-- Whatever the walk meets in a part of a folder's entries is found in the folder. -/
theorem found_of_mem_below {trail : List Name} {siblings : List (Name × Node)} :
    ∀ {part : List (Name × Node)}, part ⊆ siblings → s ∈ Sample.below trail siblings part →
      Found s trail siblings
  | [], _, h => absurd h nofun
  | (name, node) :: rest, sub, h => by
      rw [Sample.below, List.mem_append] at h
      rcases h with hnode | hrest
      · exact found_of_mem_ofNode (sub List.mem_cons_self) hnode
      · exact found_of_mem_below (fun _ he => sub (List.mem_cons_of_mem _ he)) hrest

theorem found_of_mem_ofNode {trail : List Name} {siblings : List (Name × Node)}
    {name : Name} : ∀ {node : Node}, (name, node) ∈ siblings →
      s ∈ Sample.ofNode trail siblings name node → Found s trail siblings
  | .file content, listed, h => by
      rw [Sample.ofNode, Option.mem_toList] at h
      exact .here listed h
  | .folder below, listed, h => by
      rw [Sample.ofNode] at h
      exact .inside listed (found_of_mem_below (fun _ he => he) h)

end

/-- The walk passes over no entry. -/
theorem mem_below_of_listed {trail : List Name} {siblings part : List (Name × Node)}
    {name : Name} {node : Node} (listed : (name, node) ∈ part)
    (h : s ∈ Sample.ofNode trail siblings name node) : s ∈ Sample.below trail siblings part := by
  induction part with
  | nil => exact absurd listed nofun
  | cons entry rest ih =>
      obtain ⟨first, other⟩ := entry
      rw [Sample.below, List.mem_append]
      rcases List.mem_cons.mp listed with heq | hrest
      · obtain ⟨rfl, rfl⟩ := Prod.mk.injEq .. ▸ heq
        exact Or.inl h
      · exact Or.inr (ih hrest)

/-- **`mem_below_iff`** -- the walk and `Found` agree, in any list of entries. -/
theorem mem_below_iff (trail : List Name) (entries : List (Name × Node)) :
    s ∈ Sample.below trail entries entries ↔ Found s trail entries := by
  constructor
  · exact found_of_mem_below (fun _ he => he)
  · intro h
    -- One folder of the way down at a time.
    induction h with
    | here listed sample =>
        refine mem_below_of_listed listed ?_
        rw [Sample.ofNode, Option.mem_toList]
        exact sample
    | inside listed found ih =>
        refine mem_below_of_listed listed ?_
        rw [Sample.ofNode]
        exact ih

/-! ## By place -/

/-- Found are the files at all places below, each seen from its own folder. -/
theorem found_iff {trail : List Name} {entries : List (Name × Node)}
    (distinct : Node.Distinct entries) :
    Found s trail entries ↔ ∃ place siblings name content,
      Node.find? entries place = some (.folder siblings) ∧
        siblings.lookup name = some (.file content) ∧
        Sample.ofFile? (place.reverse ++ trail) siblings name content = some s := by
  constructor
  · intro h
    induction h with
    | here listed sample =>
        exact ⟨[], _, _, _, rfl, Node.lookup_of_mem distinct.names listed, sample⟩
    | @inside trail entries below name listed found ih =>
        -- One name in front of the place, and the same name at the end of the trail.
        have hl := Node.lookup_of_mem distinct.names listed
        obtain ⟨place, siblings, file, content, hplace, hfile, sample⟩ := ih (distinct.inside hl)
        refine ⟨name :: place, siblings, file, content, ?_, hfile, ?_⟩
        · rw [Node.find?_inside place hl]
          exact hplace
        · rw [List.reverse_cons, List.append_assoc]
          exact sample
  · rintro ⟨place, siblings, name, content, hplace, hfile, sample⟩
    induction place generalizing trail entries with
    | nil =>
        obtain rfl := Node.entries_unique (Node.find?_nil entries) hplace
        exact .here (Node.mem_of_lookup hfile) sample
    | cons first place ih =>
        obtain ⟨below, hl, hbelow⟩ := Node.find?_cons_folder hplace
        rw [List.reverse_cons, List.append_assoc] at sample
        exact .inside (Node.mem_of_lookup hl) (ih (distinct.inside hl) hbelow sample)

/-- What makes a file a sample, and what the sample then holds. -/
theorem ofFile?_eq_some_iff {trail : List Name} {siblings : List (Name × Node)}
    {name : Name} {content : ByteArray} :
    Sample.ofFile? trail siblings name content = some s ↔
      name = "estimates.json" ∧
        (∃ above, trail = Name.ofText "new" :: .ofText s.function :: .ofText s.group :: above) ∧
        s.group ≠ "report" ∧ s.function ≠ "report" ∧ s.place = trail.reverse ∧
        s.estimates = content ∧
        s.benchmark = (siblings.lookup (.ofText "benchmark.json")).bind Node.text? := by
  constructor
  · intro h
    unfold Sample.ofFile? at h
    split at h
    case h_1 folder functionFolder groupFolder above =>
      split at h
      case isTrue hnamed =>
        split at h
        case h_1 function group hfunction hgroup =>
          split at h
          case isTrue => exact absurd h nofun
          case isFalse hcounts =>
            obtain rfl := Option.some.inj h
            obtain ⟨hname, hfolder⟩ := hnamed
            rw [Name.text?_eq_some_iff] at hname hfolder hfunction hgroup
            obtain ⟨hgroup', hfunction'⟩ := not_or.mp hcounts
            subst hfolder hfunction hgroup
            exact ⟨hname, ⟨above, rfl⟩, hgroup', hfunction', rfl, rfl, rfl⟩
        case h_2 => exact absurd h nofun
      case isFalse => exact absurd h nofun
    case h_2 => exact absurd h nofun
  · obtain ⟨group, function, place, estimates, benchmark⟩ := s
    dsimp only
    rintro ⟨rfl, ⟨above, rfl⟩, hgroup, hfunction, rfl, rfl, rfl⟩
    have hnamed : (Name.ofText "estimates.json").text? = some "estimates.json" ∧
        (Name.ofText "new").text? = some "new" := ⟨Name.text?_ofText _, Name.text?_ofText _⟩
    have hcounts : ¬ (group = "report" ∨ function = "report") := not_or.mpr ⟨hgroup, hfunction⟩
    rw [Sample.ofFile?, if_pos hnamed, Name.text?_ofText, Name.text?_ofText]
    exact if_neg hcounts

/-- **`mem_samples_iff`** -- the walk from the source finds the measurements and no others, each
with what stands in its folder. -/
theorem mem_samples_iff (distinct : d.Distinct) {entries : List (Name × Node)}
    (hsource : d.find? source = some (.folder entries)) :
    s ∈ samplesIn entries ↔
      Measured d s.group s.function s.place s.estimates ∧
        s.benchmark = benchmarkBeside d s.place := by
  have hentries : Node.Distinct entries := by
    intro place below h
    exact distinct (d.here ++ (source ++ place)) below (by rw [← Disk.node?, ← Disk.find?,
      Disk.find?_append place hsource, h])
  have hbeside {siblings : List (Name × Node)} (h : d.find? s.place = some (.folder siblings)) :
      benchmarkBeside d s.place =
        (siblings.lookup (.ofText "benchmark.json")).bind Node.text? := by
    rw [benchmarkBeside, Disk.find?_append _ h, Node.find?_singleton]
  rw [samplesIn, mem_below_iff, found_iff hentries]
  -- The walk's trail is the place of the folder, innermost name first.
  constructor
  · rintro ⟨place, siblings, name, content, hplace, hfile, sample⟩
    obtain ⟨rfl, ⟨above, htrail⟩, hgroup, hfunction, hat, rfl, hbenchmark⟩ :=
      ofFile?_eq_some_iff.mp sample
    rw [← List.reverse_append] at htrail hat
    rw [List.reverse_reverse] at hat
    have hfolder : d.find? s.place = some (.folder siblings) := by
      rw [hat, Disk.find?_append place hsource, hplace]
    refine ⟨⟨⟨place, hat.symm⟩, ⟨above.reverse, ?_⟩, hgroup, hfunction, ?_⟩, ?_⟩
    · rw [hat, ← List.reverse_reverse (source ++ place), htrail]
      simp
    · exact Disk.find?_concat_iff.mpr ⟨siblings, hfolder, hfile⟩
    · rw [hbenchmark, hbeside hfolder]
  · rintro ⟨⟨⟨place, hat⟩, ⟨above, hnamed⟩, hgroup, hfunction, hfile⟩, hbenchmark⟩
    obtain ⟨siblings, hfolder, hlookup⟩ := Disk.find?_concat_iff.mp hfile
    refine ⟨place, siblings, "estimates.json", s.estimates, ?_, hlookup, ?_⟩
    · rw [← hat, Disk.find?_append place hsource] at hfolder
      exact hfolder
    · rw [ofFile?_eq_some_iff, ← List.reverse_append, hat, List.reverse_reverse]
      refine ⟨rfl, ⟨above.reverse, ?_⟩, hgroup, hfunction, rfl, rfl, ?_⟩
      · rw [hnamed]
        simp
      · rw [hbenchmark, hbeside hfolder]

/-- The sample that a measurement gives. -/
theorem Measured.mem_samples {group function : String} {place : List Name}
    {estimates : ByteArray} (h : Measured d group function place estimates)
    (distinct : d.Distinct) {entries : List (Name × Node)}
    (hsource : d.find? source = some (.folder entries)) :
    ⟨group, function, place, estimates, benchmarkBeside d place⟩ ∈ samplesIn entries :=
  (mem_samples_iff distinct hsource).mpr ⟨h, rfl⟩

end SharedCells.Report
