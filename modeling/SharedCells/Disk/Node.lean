/-
# SharedCells.Disk.Node -- files and folders

A folder lists its entries in some order, which is the order they are found in when the folder is
read. A place below a folder is given by names from there down: `Node.find?` says what stands at a
place, and `Node.edit` changes one entry of the folder at a place.

The operations fail as a file system's do.
-/

import SharedCells.Disk.Name

namespace SharedCells

/-- **`DiskError`** -- why an operation on files failed. -/
inductive DiskError where
  | notFound
  | notADirectory
  | isADirectory
  | alreadyExists
  /-- The content is no text. -/
  | invalidData
  /-- The path cannot be handed to the file system. -/
  | invalidInput
  | invalidFilename
  deriving DecidableEq

namespace DiskError

/-- The name of the kind of error. -/
def kind : DiskError → String
  | notFound => "NotFound"
  | notADirectory => "NotADirectory"
  | isADirectory => "IsADirectory"
  | alreadyExists => "AlreadyExists"
  | invalidData => "InvalidData"
  | invalidInput => "InvalidInput"
  | invalidFilename => "InvalidFilename"

/-- The error in words. -/
def message : DiskError → String
  | notFound => "No such file or directory (os error 2)"
  | notADirectory => "Not a directory (os error 20)"
  | isADirectory => "Is a directory (os error 21)"
  | alreadyExists => "File exists (os error 17)"
  | invalidData => "stream did not contain valid UTF-8"
  | invalidInput => "file name contained an unexpected NUL byte"
  | invalidFilename => "File name too long (os error 36)"

end DiskError

/-- **`Node`** -- a file with its content, or a folder with its entries in listing order. -/
inductive Node where
  | file (content : ByteArray)
  | folder (entries : List (Name × Node))

namespace Node

/-- The text of a file, if it has one. -/
def text? : Node → Option String
  | file content => String.fromUTF8? content
  | folder _ => none

/-- The entries with one of them replaced, or added at the end. -/
def put (name : Name) (node : Node) : List (Name × Node) → List (Name × Node)
  | [] => [(name, node)]
  | (other, old) :: rest =>
    if other = name then (other, node) :: rest else (other, old) :: put name node rest

/-- What stands at a place below these entries. -/
def find? (entries : List (Name × Node)) : List Name → Option Node
  | [] => some (folder entries)
  | name :: rest =>
    match entries.lookup name with
    | none => none
    | some node =>
      match rest, node with
      | [], node => some node
      | rest, folder below => find? below rest
      | _, file _ => none

/-- **`FolderAt`** -- a folder stands at the place. -/
def FolderAt (entries : List (Name × Node)) (place : List Name) : Prop :=
  ∃ below, find? entries place = some (folder below)

end Node

/-- **`Edit`** -- a change of one entry in a folder. -/
inductive Edit where
  /-- Writes a file; an older one of that name is replaced. -/
  | file (name : Name) (content : ByteArray)
  /-- Makes a folder, unless there is one of that name. -/
  | folder (name : Name)

namespace Edit

/-- The name of the entry. -/
def name : Edit → Name
  | file name _ => name
  | folder name => name

/-- The entry, if it is made anew. -/
def node : Edit → Node
  | file _ content => .file content
  | folder _ => .folder []

/-- **`apply`** -- the entries of the folder after the change. -/
def apply (entries : List (Name × Node)) : Edit → Except DiskError (List (Name × Node))
  | change@(file name _) =>
    match entries.lookup name with
    | some (.folder _) => .error .isADirectory
    | _ => .ok (Node.put name change.node entries)
  | change@(folder name) =>
    match entries.lookup name with
    | none => .ok (Node.put name change.node entries)
    | some (.folder _) => .ok entries
    | some (.file _) => .error .alreadyExists

end Edit

/-- **`Node.edit`** -- the entries after a change in the folder at a place, which has to be
there. -/
def Node.edit (change : Edit) (entries : List (Name × Node)) :
    List Name → Except DiskError (List (Name × Node))
  | [] => change.apply entries
  | name :: rest =>
    match entries.lookup name with
    | none => .error .notFound
    | some (file _) => .error .notADirectory
    | some (folder below) => do
      let below ← edit change below rest
      .ok (put name (folder below) entries)

end SharedCells
