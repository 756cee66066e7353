/-
# SharedCells.Disk.Path -- paths written by a user

A path that begins with a slash starts at the root, and any other in the working folder. Its names
are followed one by one. Empty names and `.` stay in the folder reached so far, and `..` leaves it;
the root is its own parent. Every name before the last has to lead to a folder. A path whose last
name is empty or made of dots can only mean a folder.

Names and paths have a greatest length, which is checked here. The folders that a program walks
through by itself are taken to keep to it.
-/

import SharedCells.Disk.Basic

namespace SharedCells

namespace Path

/-- The longest name that a file may have, in bytes. -/
def nameLimit : Nat := 255

/-- A path has to be shorter than this, in bytes. -/
def pathLimit : Nat := 4096

/-- Does the path start at the root? -/
def isAbsolute (p : Path) : Bool := p.bytes.head? = some slash

/-- Is the last name empty? -/
def endsInSlash (p : Path) : Bool := p.bytes.getLast? = some slash

end Path

namespace Disk

/-- The place that a path starts from. -/
def startOf (d : Disk) (path : Path) : List Name := if path.isAbsolute then [] else d.here

/-- Follows names that all have to lead to folders. The folder reached is given by its names,
innermost first. -/
def follow (d : Disk) (reached : List Name) : List Name → Except DiskError (List Name)
  | [] => .ok reached
  | name :: rest =>
    if name = "" ∨ name = "." then follow d reached rest
    else if name = ".." then follow d reached.tail rest
    else if Path.nameLimit < name.bytes.length then .error .invalidFilename
    else
      match d.node? (name :: reached).reverse with
      | none => .error .notFound
      | some (.file _) => .error .notADirectory
      | some (.folder _) => follow d (name :: reached) rest

/-- **`locate`** -- the place of the file that a path means. -/
def locate (d : Disk) (path : Path) : Except DiskError (List Name) :=
  if path.bytes.contains 0 then .error .invalidInput
  else if path.bytes = [] then .error .notFound
  else if Path.pathLimit ≤ path.bytes.length then .error .invalidFilename
  else
    match path.names.reverse.dropWhile (fun name : Name => name = "") with
    | [] => .error .isADirectory
    | last :: before => do
      let folder ← d.follow (d.startOf path).reverse before.reverse
      if last = "." ∨ last = ".." ∨ path.endsInSlash then .error .isADirectory
      else if Path.nameLimit < last.bytes.length then .error .invalidFilename
      else .ok (last :: folder).reverse

/-- **`writeText`** -- the disk after a text was written to the file that a path means. -/
def writeText (d : Disk) (path : Path) (text : String) : Except DiskError Disk := do
  d.write (← d.locate path) text.toUTF8

/-- **`readText?`** -- the text of the file that a path means, if it has one. -/
def readText? (d : Disk) (path : Path) : Option String :=
  match d.locate path with
  | .error _ => none
  | .ok place => (d.node? place).bind Node.text?

/-- Adds folders along names, and an entry at their end. -/
def graft (entry : Option ByteArray) (entries : List (Name × Node)) :
    List Name → List (Name × Node)
  | [] => entries
  | [name] =>
    match entry with
    | some content => Node.put name (.file content) entries
    | none => if (entries.lookup name).isSome then entries else Node.put name (.folder []) entries
  | name :: rest =>
    match entries.lookup name with
    | some (.folder below) => Node.put name (.folder (graft entry below rest)) entries
    | _ => Node.put name (.folder (graft entry [] rest)) entries

/-- **`ofFiles`** -- the disk with these files in the working folder, and the folders they need. A
path with no content is an empty folder. -/
def ofFiles (files : List (Path × Option ByteArray)) : Disk :=
  .holding (files.foldl (fun entries (path, content) =>
    graft content entries (path.names.filter fun name => name ≠ "" ∧ name ≠ ".")) [])

end Disk

end SharedCells
