/-
# SharedCells.Proofs.Disk.Distinct -- every name once in its folder

A folder cannot list two entries under one name. `Node.Distinct` says so for every folder below;
where it holds, the entries of a folder are determined by their names. `Node.namesOnce` checks it,
so it can be decided.

* `Node.Distinct.put_file`, `Node.Distinct.put_folder` : putting an entry keeps it.
* `Disk.ofFiles_distinct` : the disks that listings describe have it.
-/

import SharedCells.Disk.Path

namespace SharedCells

namespace Node

variable {entries below : List (Name × Node)} {name : Name} {node : Node}

/-! ## Every name once -/

/-- **`Distinct`** -- in no folder do two entries have the same name. -/
def Distinct (entries : List (Name × Node)) : Prop :=
  ∀ place below, find? entries place = some (folder below) → (below.map Prod.fst).Nodup

theorem Distinct.names (h : Distinct entries) : (entries.map Prod.fst).Nodup :=
  h [] entries rfl

theorem Distinct.inside (h : Distinct entries)
    (hl : entries.lookup name = some (folder below)) : Distinct below := by
  intro place inner hfind
  exact h (name :: place) inner (by rw [find?_inside place hl, hfind])

/-- It is enough to look at the folder's own names and at the folders in it. -/
theorem distinct_intro (names : (entries.map Prod.fst).Nodup)
    (inside : ∀ name below, entries.lookup name = some (folder below) → Distinct below) :
    Distinct entries := by
  intro place below hfind
  cases place with
  | nil =>
      obtain rfl := entries_unique (find?_nil entries) hfind
      exact names
  | cons first place =>
      obtain ⟨inner, hl, hinner⟩ := find?_cons_folder hfind
      exact inside first inner hl place below hinner

theorem distinct_nil : Distinct [] :=
  distinct_intro List.nodup_nil fun _ _ hl => absurd hl nofun

/-! ## Putting an entry -/

/-- A name that is put is there already or comes last. -/
theorem names_put (entries : List (Name × Node)) (name : Name) (node : Node) :
    (put name node entries).map Prod.fst =
      if name ∈ entries.map Prod.fst then entries.map Prod.fst
      else entries.map Prod.fst ++ [name] := by
  induction entries with
  | nil => rfl
  | cons entry rest ih =>
      obtain ⟨first, old⟩ := entry
      rw [put]
      by_cases hf : first = name
      · subst hf
        rw [if_pos rfl, List.map_cons, List.map_cons, if_pos List.mem_cons_self]
      · rw [if_neg hf, List.map_cons, List.map_cons, ih]
        by_cases hm : name ∈ rest.map Prod.fst
        · rw [if_pos hm, if_pos (List.mem_cons_of_mem _ hm)]
        · have hn : name ∉ first :: rest.map Prod.fst := by
            intro h
            rcases List.mem_cons.mp h with heq | hrest
            · exact hf heq.symm
            · exact hm hrest
          rw [if_neg hm, if_neg hn, List.cons_append]

theorem nodup_names_put (node : Node) (h : (entries.map Prod.fst).Nodup) :
    ((put name node entries).map Prod.fst).Nodup := by
  rw [names_put]
  split
  case isTrue hm => exact h
  case isFalse hm =>
    refine List.nodup_append.mpr ⟨h, by simp, ?_⟩
    rintro a ha b hb rfl
    rw [List.mem_singleton] at hb
    exact hm (hb ▸ ha)

theorem Distinct.put (h : Distinct entries) (name : Name)
    (hnode : ∀ below, node = folder below → Distinct below) :
    Distinct (put name node entries) := by
  apply distinct_intro (nodup_names_put node h.names)
  intro other below hl
  rw [lookup_put] at hl
  split at hl
  case isTrue => exact hnode below (Option.some.inj hl)
  case isFalse => exact h.inside hl

theorem Distinct.put_file (h : Distinct entries) (name : Name) (content : ByteArray) :
    Distinct (Node.put name (file content) entries) :=
  h.put name fun _ heq => absurd heq nofun

theorem Distinct.put_folder (h : Distinct entries) (name : Name) (hb : Distinct below) :
    Distinct (Node.put name (folder below) entries) :=
  h.put name fun _ heq => folder.inj heq ▸ hb

/-! ## Checking the names -/

mutual

/-- **`namesOnce`** -- a check that no name occurs twice in its folder. -/
def namesOnce : List (Name × Node) → Bool
  | [] => true
  | (name, node) :: rest => !(rest.map Prod.fst).contains name && namesOnceIn node && namesOnce rest

/-- The check for what an entry holds. -/
def namesOnceIn : Node → Bool
  | file _ => true
  | folder entries => namesOnce entries

end

theorem namesOnce_cons (name : Name) (node : Node) (rest : List (Name × Node)) :
    namesOnce ((name, node) :: rest) = true ↔
      name ∉ rest.map Prod.fst ∧ namesOnceIn node = true ∧ namesOnce rest = true := by
  rw [namesOnce, Bool.and_eq_true, Bool.and_eq_true, Bool.not_eq_true', and_assoc,
    ← Bool.not_eq_true, List.contains_iff_mem]

theorem namesOnce_names (h : namesOnce entries = true) : (entries.map Prod.fst).Nodup := by
  induction entries with
  | nil => exact List.nodup_nil
  | cons entry rest ih =>
      obtain ⟨hname, -, hrest⟩ := (namesOnce_cons ..).mp h
      exact List.nodup_cons.mpr ⟨hname, ih hrest⟩

theorem namesOnce_inside (h : namesOnce entries = true)
    (hl : entries.lookup name = some (folder below)) : namesOnce below = true := by
  have hmem := mem_of_lookup hl
  induction entries with
  | nil => exact absurd hmem nofun
  | cons entry rest ih =>
      obtain ⟨first, node⟩ := entry
      obtain ⟨-, hnode, hrest⟩ := (namesOnce_cons ..).mp h
      rcases List.mem_cons.mp hmem with heq | hmem
      · obtain ⟨rfl, rfl⟩ := Prod.mk.injEq .. ▸ heq
        exact hnode
      · exact ih hrest (lookup_of_mem (namesOnce_names hrest) hmem) hmem

theorem distinct_of_namesOnce (h : namesOnce entries = true) : Distinct entries := by
  intro place below hfind
  -- The check of a folder includes the checks of all folders on the way down.
  induction place generalizing entries with
  | nil =>
      obtain rfl := entries_unique (find?_nil entries) hfind
      exact namesOnce_names h
  | cons first place ih =>
      obtain ⟨inner, hl, hinner⟩ := find?_cons_folder hfind
      exact ih (namesOnce_inside h hl) hinner

mutual

/-- The check asks for no more than distinct names. -/
theorem namesOnce_of_distinct : ∀ {entries : List (Name × Node)},
    (entries.map Prod.fst).Nodup →
    (∀ name below, (name, folder below) ∈ entries → Distinct below) → namesOnce entries = true
  | [], _, _ => rfl
  | (name, node) :: rest, names, inside => by
      obtain ⟨hname, hrest⟩ := List.nodup_cons.mp names
      refine (namesOnce_cons ..).mpr ⟨hname, ?_, ?_⟩
      · exact namesOnceIn_of_distinct fun below heq => inside name below (heq ▸ List.mem_cons_self)
      · exact namesOnce_of_distinct hrest fun other below hmem =>
          inside other below (List.mem_cons_of_mem _ hmem)

theorem namesOnceIn_of_distinct : ∀ {node : Node},
    (∀ below, node = folder below → Distinct below) → namesOnceIn node = true
  | file _, _ => rfl
  | folder below, h => by
      have distinct := h below rfl
      exact namesOnce_of_distinct distinct.names fun name inner hmem =>
        distinct.inside (lookup_of_mem distinct.names hmem)

end

theorem distinct_iff (entries : List (Name × Node)) :
    Distinct entries ↔ namesOnce entries = true := by
  constructor
  · intro h
    exact namesOnce_of_distinct h.names fun name below hmem =>
      h.inside (lookup_of_mem h.names hmem)
  · exact distinct_of_namesOnce

instance (entries : List (Name × Node)) : Decidable (Distinct entries) :=
  decidable_of_iff _ (distinct_iff entries).symm

end Node

namespace Disk

/-- **`Distinct`** -- in no folder of the disk do two entries have the same name. -/
def Distinct (d : Disk) : Prop := Node.Distinct d.root

instance (d : Disk) : Decidable d.Distinct := inferInstanceAs (Decidable (Node.Distinct d.root))

theorem graft_distinct (entry : Option ByteArray) (names : List Name)
    {entries : List (Name × Node)} (h : Node.Distinct entries) :
    Node.Distinct (graft entry entries names) := by
  induction names generalizing entries with
  | nil => exact h
  | cons name rest ih =>
      cases rest with
      | nil =>
          cases entry with
          | some content => exact h.put_file name content
          | none =>
              rw [graft]
              split
              case isTrue => exact h
              case isFalse => exact h.put_folder name Node.distinct_nil
      | cons next rest =>
          rw [graft]
          case x_1 => simp
          split
          case h_1 below hl => exact h.put_folder name (ih (h.inside hl))
          case h_2 => exact h.put_folder name (ih Node.distinct_nil)

/-- A disk made from a list of files names every entry once, whatever the list. -/
theorem ofFiles_distinct (files : List (Path × Option ByteArray)) :
    (ofFiles files).Distinct := by
  let step (entries : List (Name × Node)) (file : Path × Option ByteArray) :=
    graft file.2 entries (file.1.names.filter fun name => name ≠ "" ∧ name ≠ ".")
  have hfold : ∀ files entries, Node.Distinct entries →
      Node.Distinct (List.foldl step entries files) := by
    intro files
    induction files with
    | nil => exact fun entries h => h
    | cons file files ih => exact fun entries h => ih _ (graft_distinct file.2 _ h)
  exact Node.distinct_nil.put_folder "work" (hfold files [] Node.distinct_nil)

end Disk

end SharedCells
