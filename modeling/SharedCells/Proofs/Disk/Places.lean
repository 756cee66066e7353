/-
# SharedCells.Proofs.Disk.Places -- disks compared by place

What stands at a place of a disk is what stands there below its root, and the names that a program
uses lead from the working folder on. So what `Disk.find?` gives along a way is what `Node.find?`
gives along the end of it.

`Disk.SameTree` compares two disks by place, so it does not see in which order a folder lists its
entries.
-/

import SharedCells.Disk.Basic

namespace SharedCells

namespace Node

/-- **`SameTree`** -- the same folders, and the same files with the same content, whatever the
order in which folders list them. -/
structure SameTree (entries entries' : List (Name × Node)) : Prop where
  files : ∀ place content,
    find? entries place = some (file content) ↔ find? entries' place = some (file content)
  folders : ∀ place, FolderAt entries place ↔ FolderAt entries' place

variable {entries entries' : List (Name × Node)}

theorem SameTree.symm (h : SameTree entries entries') : SameTree entries' entries where
  files place content := (h.files place content).symm
  folders place := (h.folders place).symm

/-- Listings that lead from the same names to the same entries are of one tree. -/
theorem sameTree_of_lookup (h : ∀ name, entries.lookup name = entries'.lookup name) :
    SameTree entries entries' := by
  have hfind : ∀ name rest, find? entries (name :: rest) = find? entries' (name :: rest) := by
    intro name rest
    rw [find?, find?, h]
  constructor
  · intro place content
    cases place with
    | nil => simp [find?_nil]
    | cons name rest => rw [hfind]
  · intro place
    cases place with
    | nil => exact ⟨fun _ => folderAt_nil _, fun _ => folderAt_nil _⟩
    | cons name rest => rw [FolderAt, FolderAt, hfind]

/-- The same tree in a folder of the same name, with nothing beside it. -/
theorem SameTree.inside (same : SameTree entries entries') (name : Name) :
    SameTree [(name, folder entries)] [(name, folder entries')] := by
  constructor
  · intro place content
    cases place with
    | nil => simp [find?_nil]
    | cons first rest =>
        rw [find?_only, find?_only]
        split
        case isTrue => exact same.files rest content
        case isFalse => exact Iff.rfl
  · intro place
    cases place with
    | nil => exact ⟨fun _ => folderAt_nil _, fun _ => folderAt_nil _⟩
    | cons first rest =>
        rw [FolderAt, FolderAt, find?_only, find?_only]
        split
        case isTrue => exact same.folders rest
        case isFalse => exact Iff.rfl

end Node

namespace Disk

variable {d e : Disk} {names above : List Name} {name : Name} {node : Node}
  {below : List (Name × Node)}

/-! ## From the working folder on -/

/-- What is found in a folder that is found is found from above. -/
theorem find?_append (rest : List Name) (h : d.find? names = some (.folder below)) :
    d.find? (names ++ rest) = Node.find? below rest := by
  rw [find?, node?, ← List.append_assoc]
  exact Node.find?_append rest h

/-- Above whatever is found there are folders. -/
theorem find?_concat_iff : d.find? (names ++ [name]) = some node ↔
    ∃ below, d.find? names = some (.folder below) ∧ below.lookup name = some node := by
  rw [find?, node?, ← List.append_assoc]
  exact Node.find?_concat_iff

/-- The same for a folder any number of folders above. -/
theorem find?_of_prefix (h : d.find? names = some (.folder below)) (hp : above <+: names) :
    ∃ inner, d.find? above = some (.folder inner) :=
  Node.folder_of_prefix h ((List.prefix_append_right_inj d.here).mpr hp)

/-! ## One tree in two listings -/

/-- **`SameTree`** -- the same folders, the same files with the same content, and the same working
folder, whatever the order in which folders list their entries. -/
structure SameTree (d e : Disk) : Prop extends Node.SameTree d.root e.root where
  here : d.here = e.here

theorem SameTree.symm (h : d.SameTree e) : e.SameTree d :=
  ⟨h.toSameTree.symm, h.here.symm⟩

theorem SameTree.found_file_iff (same : d.SameTree e) (names : List Name) (content : ByteArray) :
    d.find? names = some (.file content) ↔ e.find? names = some (.file content) := by
  rw [find?, find?, ← same.here]
  exact same.files _ content

theorem SameTree.found_folder (same : d.SameTree e) (h : d.find? names = some (.folder below)) :
    ∃ below', e.find? names = some (.folder below') := by
  rw [find?, ← same.here]
  exact (same.folders _).mp ⟨below, h⟩

theorem SameTree.holding {entries entries' : List (Name × Node)}
    (same : Node.SameTree entries entries') : (holding entries).SameTree (.holding entries') :=
  ⟨same.inside "work", rfl⟩

end Disk

end SharedCells
