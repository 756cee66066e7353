/-
# SharedCells.Disk.Basic -- the disk and its working folder

A disk is what stands below its root, with the place of the folder that the program works in. A
place is given by names from the root down: `Disk.node?` says what stands there. What a program
names without a slash in front it means from its working folder down: `Disk.find?` says what
stands there. `Disk.locate` finds the place that a path written by a user means.

An operation that fails changes nothing.
-/

import SharedCells.Disk.Place

namespace SharedCells

/-- **`Disk`** -- the entries of the root, and the working folder. -/
structure Disk where
  root : List (Name × Node)
  /-- The place of the working folder. -/
  here : List Name
  /-- The working folder is there. -/
  stands : Node.FolderAt root here

namespace Disk

/-- **`node?`** -- what stands at a place. -/
def node? (d : Disk) (place : List Name) : Option Node := Node.find? d.root place

/-- A folder stands at the place. -/
def FolderAt (d : Disk) (place : List Name) : Prop :=
  ∃ below, d.node? place = some (.folder below)

/-- **`find?`** -- what these names lead to from the working folder down. -/
def find? (d : Disk) (names : List Name) : Option Node := d.node? (d.here ++ names)

/-- **`edit`** -- the disk after a change in the folder at a place. -/
def edit (d : Disk) (place : List Name) (change : Edit) : Except DiskError Disk :=
  match h : Node.edit change d.root place with
  | .error e => .error e
  | .ok root => .ok ⟨root, d.here, Node.edit_keeps h d.stands⟩

/-- **`write`** -- the disk after a file was written at a place. -/
def write (d : Disk) (place : List Name) (content : ByteArray) : Except DiskError Disk :=
  match place.getLast? with
  | none => .error .isADirectory
  | some name => d.edit place.dropLast (.file name content)

/-- **`ensureFolder`** -- the disk with a folder of that name in the working folder; one that
is there already stays as it is. -/
def ensureFolder (d : Disk) (name : Name) : Except DiskError Disk := d.edit d.here (.folder name)

/-- **`holding`** -- a disk with these entries in its working folder, and nothing beside it. -/
def holding (entries : List (Name × Node)) : Disk where
  root := [("work", .folder entries)]
  here := ["work"]
  stands := ⟨entries, rfl⟩

end Disk

end SharedCells
