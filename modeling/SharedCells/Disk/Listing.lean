/-
# SharedCells.Disk.Listing -- a working folder as one document

A working folder is listed as an object that maps the path of each file in it to its text. An
empty folder is listed by its path with a slash at the end, and no text.
-/

import SharedCells.Disk.Path
import SharedCells.Json.Basic

namespace SharedCells

mutual

/-- The files in a list of entries and below them, each with its path; `trail` names the
folders above, innermost first. -/
def Node.filesIn (trail : List Name) : List (Name × Node) → List (String × String)
  | [] => []
  | (name, node) :: rest => Node.filesAt (name :: trail) node ++ Node.filesIn trail rest

/-- The files that an entry is or holds. -/
def Node.filesAt (trail : List Name) : Node → List (String × String)
  | .file content =>
    match String.fromUTF8? content with
    | some text => [((Path.join trail.reverse).shown, text)]
    | none => []
  | .folder [] => [((Path.join trail.reverse).shown ++ "/", "")]
  | .folder (entry :: rest) => Node.filesIn trail (entry :: rest)

end

namespace Disk

/-- **`toJson`** -- the listing of the working folder. Files that are no text are left out. -/
def toJson (d : Disk) : Json Empty :=
  let files := match d.find? [] with
    | some (.folder entries) => Node.filesIn [] entries
    | _ => []
  .object (files.map fun (path, text) => (path, .string text))

/-- One member of a listing. -/
def memberOf? {ν : Type} : String × Json ν → Option (Path × Option ByteArray)
  | (text, .string content) =>
    let path := Path.ofText text
    some (path, if path.endsInSlash then none else some content.toUTF8)
  | _ => none

/-- **`ofJson?`** -- the disk whose working folder a document lists. -/
def ofJson? {ν : Type} : Json ν → Option Disk
  | .object members => (members.mapM memberOf?).map Disk.ofFiles
  | _ => none

end Disk

end SharedCells
