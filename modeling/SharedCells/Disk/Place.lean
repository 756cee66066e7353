/-
# SharedCells.Disk.Place -- what stands where

The entries of a folder are known by what stands at each place below it. The lemmas here say what
`Node.find?` gives along a place: an entry is found through its folder, and whatever is found has
folders above it. A change of one entry leaves every folder where it is: `Node.edit_keeps`.
-/

import SharedCells.Disk.Node

namespace SharedCells

namespace Node

variable {entries below : List (Name × Node)} {name other : Name} {node : Node}

/-- A folder has one list of entries. -/
theorem entries_unique {found : Option Node} {other : List (Name × Node)}
    (h : found = some (folder below)) (h' : found = some (folder other)) : below = other :=
  folder.inj (Option.some.inj (h.symm.trans h'))

/-! ## Along a place -/

theorem find?_nil (entries : List (Name × Node)) : find? entries [] = some (folder entries) :=
  rfl

theorem find?_missing (rest : List Name) (h : entries.lookup name = none) :
    find? entries (name :: rest) = none := by
  rw [find?, h]

theorem find?_inside (rest : List Name) (h : entries.lookup name = some (folder below)) :
    find? entries (name :: rest) = find? below rest := by
  rw [find?, h]
  cases rest with
  | nil => rfl
  | cons next rest => rfl

theorem find?_of_file {content : ByteArray} (rest : List Name)
    (h : entries.lookup name = some (file content)) :
    find? entries (name :: rest) = if rest = [] then some (file content) else none := by
  rw [find?, h]
  cases rest with
  | nil => rfl
  | cons next rest => rfl

theorem find?_singleton (entries : List (Name × Node)) (name : Name) :
    find? entries [name] = entries.lookup name := by
  rw [find?]
  cases entries.lookup name with
  | none => rfl
  | some node => rfl

/-- With one folder and nothing beside it, every way leads through the folder. -/
theorem find?_only (name first : Name) (below : List (Name × Node)) (rest : List Name) :
    find? [(name, folder below)] (first :: rest) =
      if first = name then find? below rest else none := by
  by_cases hf : first = name
  · subst hf
    rw [if_pos rfl, find?_inside rest]
    rw [List.lookup_cons, beq_self_eq_true]
  · rw [if_neg hf, find?_missing rest]
    rw [List.lookup_cons, beq_false_of_ne hf]
    rfl

/-- Whatever is found is the entry that the first name leads to, or stands in it. -/
theorem find?_cons_cases {rest : List Name} (h : find? entries (name :: rest) = some node) :
    rest = [] ∧ entries.lookup name = some node ∨
      ∃ inner, entries.lookup name = some (folder inner) ∧ find? inner rest = some node := by
  cases hl : entries.lookup name with
  | none =>
      rw [find?_missing rest hl] at h
      exact absurd h nofun
  | some found =>
      cases found with
      | folder inner =>
          rw [find?_inside rest hl] at h
          exact Or.inr ⟨inner, rfl, h⟩
      | file content =>
          rw [find?_of_file rest hl] at h
          split at h
          case isTrue hrest => exact Or.inl ⟨hrest, h⟩
          case isFalse => exact absurd h nofun

/-- The names on the way to a folder lead to folders. -/
theorem find?_cons_folder {rest : List Name}
    (h : find? entries (name :: rest) = some (folder below)) :
    ∃ inner, entries.lookup name = some (folder inner) ∧
      find? inner rest = some (folder below) := by
  rcases find?_cons_cases h with ⟨rfl, hl⟩ | hinner
  · exact ⟨below, hl, rfl⟩
  · exact hinner

/-- What is found in a folder that is found is found from above. -/
theorem find?_append {place : List Name} (rest : List Name)
    (h : find? entries place = some (folder below)) :
    find? entries (place ++ rest) = find? below rest := by
  induction place generalizing entries with
  | nil =>
      obtain rfl := entries_unique (find?_nil entries) h
      rw [List.nil_append]
  | cons name place ih =>
      obtain ⟨inner, hl, hinner⟩ := find?_cons_folder h
      rw [List.cons_append, find?_inside _ hl]
      exact ih hinner

/-- Above whatever is found there are folders. -/
theorem folder_above {place : List Name} (h : find? entries (place ++ [name]) = some node) :
    ∃ below, find? entries place = some (folder below) ∧ below.lookup name = some node := by
  induction place generalizing entries with
  | nil =>
      rw [List.nil_append, find?_singleton] at h
      exact ⟨entries, rfl, h⟩
  | cons first place ih =>
      rcases find?_cons_cases h with ⟨hnil, -⟩ | ⟨inner, hl, hinner⟩
      · exact absurd hnil (by simp)
      · rw [find?_inside place hl]
        exact ih hinner

theorem find?_concat_iff {place : List Name} :
    find? entries (place ++ [name]) = some node ↔
      ∃ below, find? entries place = some (folder below) ∧ below.lookup name = some node := by
  constructor
  · exact folder_above
  · rintro ⟨below, hplace, hname⟩
    rw [find?_append [name] hplace, find?_singleton, hname]

/-- The same for a place any number of folders above. -/
theorem folder_of_prefix {above place : List Name} (h : find? entries place = some (folder below))
    (hp : above <+: place) : ∃ inner, find? entries above = some (folder inner) := by
  obtain ⟨rest, rfl⟩ := hp
  induction above generalizing entries with
  | nil => exact ⟨entries, rfl⟩
  | cons first above ih =>
      obtain ⟨inner, hl, hinner⟩ := find?_cons_folder h
      rw [find?_inside above hl]
      exact ih hinner

/-! ## Entries by name -/

theorem mem_of_lookup (h : entries.lookup name = some node) : (name, node) ∈ entries := by
  obtain ⟨before, after, same, -⟩ := List.lookup_eq_some_iff.mp h
  rw [same]
  exact List.mem_append_right _ List.mem_cons_self

/-- Where every entry has its own name, an entry is what its name leads to. -/
theorem lookup_of_mem (names : (entries.map Prod.fst).Nodup) (h : (name, node) ∈ entries) :
    entries.lookup name = some node := by
  induction entries with
  | nil => exact absurd h nofun
  | cons entry rest ih =>
      obtain ⟨first, old⟩ := entry
      rw [List.map_cons, List.nodup_cons] at names
      rw [List.lookup_cons]
      rcases List.mem_cons.mp h with heq | hrest
      · obtain ⟨rfl, rfl⟩ := Prod.mk.injEq .. ▸ heq
        rw [beq_self_eq_true]
      · have hn : name ≠ first := by
          rintro rfl
          exact names.1 (List.mem_map.mpr ⟨_, hrest, rfl⟩)
        rw [beq_false_of_ne hn]
        exact ih names.2 hrest

theorem lookup_put (entries : List (Name × Node)) (name other : Name) (node : Node) :
    (put name node entries).lookup other =
      if other = name then some node else entries.lookup other := by
  induction entries with
  | nil =>
      rw [put, List.lookup_cons]
      by_cases h : other = name
      · rw [h, beq_self_eq_true, if_pos rfl]
      · rw [beq_false_of_ne h, if_neg h]
  | cons entry rest ih =>
      obtain ⟨first, old⟩ := entry
      rw [put]
      -- Either the entry is replaced here, or it is put further on.
      by_cases hf : first = name
      · subst hf
        rw [if_pos rfl, List.lookup_cons, List.lookup_cons]
        by_cases h : other = first
        · rw [h, beq_self_eq_true, if_pos rfl]
        · rw [beq_false_of_ne h, if_neg h]
      · rw [if_neg hf, List.lookup_cons, List.lookup_cons, ih]
        by_cases h : other = first
        · subst h
          rw [beq_self_eq_true]
          exact (if_neg hf).symm
        · rw [beq_false_of_ne h]

theorem lookup_put_self (entries : List (Name × Node)) (name : Name) (node : Node) :
    (put name node entries).lookup name = some node := by
  rw [lookup_put, if_pos rfl]

theorem lookup_put_other (entries : List (Name × Node)) (node : Node) (h : other ≠ name) :
    (put name node entries).lookup other = entries.lookup other := by
  rw [lookup_put, if_neg h]

/-- An entry that is put is not seen from under another name. -/
theorem find?_put_other (entries : List (Name × Node)) (node : Node) (rest : List Name)
    (h : other ≠ name) :
    find? (put name node entries) (other :: rest) = find? entries (other :: rest) := by
  rw [find?, find?, lookup_put_other entries node h]

/-! ## Folders -/

theorem folderAt_nil (entries : List (Name × Node)) : FolderAt entries [] := ⟨entries, rfl⟩

theorem folderAt_cons_iff {rest : List Name} : FolderAt entries (name :: rest) ↔
    ∃ below, entries.lookup name = some (folder below) ∧ FolderAt below rest := by
  constructor
  · rintro ⟨found, h⟩
    obtain ⟨below, hl, hbelow⟩ := find?_cons_folder h
    exact ⟨below, hl, found, hbelow⟩
  · rintro ⟨below, hl, found, hbelow⟩
    exact ⟨found, by rw [find?_inside rest hl, hbelow]⟩

/-- A folder under another name is not touched. -/
theorem folderAt_put_other {rest : List Name} (h : other ≠ name) :
    FolderAt (put name node entries) (other :: rest) ↔ FolderAt entries (other :: rest) := by
  rw [FolderAt, FolderAt, find?_put_other entries node rest h]

end Node

namespace Edit

variable {change : Edit} {entries after : List (Name × Node)}

/-- A change puts its entry where no folder stands, or there is nothing to do. -/
theorem apply_cases (h : change.apply entries = .ok after) :
    after = entries ∨ (∀ below, entries.lookup change.name ≠ some (.folder below)) ∧
      after = Node.put change.name change.node entries := by
  cases change with
  | file name content =>
      rw [apply] at h
      split at h
      case h_1 => exact absurd h nofun
      case h_2 hfree => exact Or.inr ⟨hfree, (Except.ok.inj h).symm⟩
  | folder name =>
      rw [apply] at h
      split at h
      case h_1 hl =>
        have hfree : ∀ below, entries.lookup name ≠ some (.folder below) := by
          intro below
          rw [hl]
          exact nofun
        exact Or.inr ⟨hfree, (Except.ok.inj h).symm⟩
      case h_2 => exact Or.inl (Except.ok.inj h).symm
      case h_3 => exact absurd h nofun

/-- No folder goes away. -/
theorem apply_keeps {place : List Name} (h : change.apply entries = .ok after)
    (hfolder : Node.FolderAt entries place) : Node.FolderAt after place := by
  rcases apply_cases h with rfl | ⟨hfree, rfl⟩
  · exact hfolder
  · cases place with
    | nil => exact Node.folderAt_nil _
    | cons first rest =>
        have hother : first ≠ change.name := by
          rintro rfl
          obtain ⟨below, hl, -⟩ := Node.folderAt_cons_iff.mp hfolder
          exact hfree below hl
        exact (Node.folderAt_put_other hother).mpr hfolder

end Edit

namespace Node

variable {change : Edit} {after : List (Name × Node)} {first : Name} {place : List Name}

/-- What a change did is a folder put back where it was. -/
theorem edit_cons (h : edit change entries (first :: place) = .ok after) :
    ∃ below inner, entries.lookup first = some (folder below) ∧
      edit change below place = .ok inner ∧ after = put first (folder inner) entries := by
  rw [edit] at h
  split at h
  case h_1 | h_2 => exact absurd h nofun
  case h_3 below hl =>
    cases hbelow : edit change below place with
    | error e =>
        rw [hbelow] at h
        exact absurd h nofun
    | ok inner =>
        rw [hbelow] at h
        exact ⟨below, inner, hl, hbelow, (Except.ok.inj h).symm⟩

/-- **`edit_keeps`** -- no folder goes away, wherever the change is made. -/
theorem edit_keeps {away : List Name} (h : edit change entries place = .ok after)
    (hfolder : FolderAt entries away) : FolderAt after away := by
  induction place generalizing entries after away with
  | nil => exact Edit.apply_keeps h hfolder
  | cons first place ih =>
      obtain ⟨below, inner, hl, hbelow, rfl⟩ := edit_cons h
      cases away with
      | nil => exact folderAt_nil _
      | cons other away =>
          by_cases ho : other = first
          · subst ho
            obtain ⟨found, hfound, haway⟩ := folderAt_cons_iff.mp hfolder
            obtain rfl := entries_unique hl hfound
            exact folderAt_cons_iff.mpr ⟨inner, lookup_put_self .., ih hbelow haway⟩
          · exact (folderAt_put_other ho).mpr hfolder

end Node

end SharedCells
