/-
# SharedCells.Disk.Name -- names and paths

A name of a file or folder is a string of bytes, and so is a path, which is names separated by
slashes. Most are texts, but none has to be: `Name.text?` gives the text of a name that is one.
Wherever a name is written out in Lean it is a text, and stands for its bytes.
-/

import SharedCells.Text.Utf8

namespace SharedCells

/-- **`Name`** -- the name of a file or folder in the folder that lists it. -/
structure Name where
  bytes : List UInt8
  deriving DecidableEq

namespace Name

/-- The name that a text is. -/
def ofText (text : String) : Name := ⟨Utf8.encode text⟩

instance : Coe String Name := ⟨ofText⟩

/-- **`text?`** -- the text that the name is, if it is one. -/
def text? (n : Name) : Option String := Utf8.decode? n.bytes

theorem ofText_injective {s t : String} (h : ofText s = ofText t) : s = t :=
  Utf8.encode_injective (Name.mk.inj h)

theorem text?_ofText (text : String) : (ofText text).text? = some text :=
  Utf8.decode?_encode text

theorem text?_eq_some_iff {n : Name} {text : String} : n.text? = some text ↔ n = ofText text := by
  rw [text?, Utf8.decode?_eq_some_iff, ofText, Name.mk.injEq]

end Name

/-- **`Path`** -- a way through folders, as it is written. -/
structure Path where
  bytes : List UInt8
  deriving DecidableEq

namespace Path

/-- The path that a text is. -/
def ofText (text : String) : Path := ⟨Utf8.encode text⟩

instance : Coe String Path := ⟨ofText⟩

/-- The path as it is shown in messages. -/
def shown (p : Path) : String := Utf8.shown p.bytes

theorem shown_ofText (text : String) : (ofText text).shown = text :=
  Utf8.shown_encode text

/-- The byte between the names of a path. -/
def slash : UInt8 := 0x2F

/-- The parts between the slashes. -/
def splitSlashes : List UInt8 → List (List UInt8)
  | [] => [[]]
  | b :: rest =>
    if b = slash then [] :: splitSlashes rest
    else
      match splitSlashes rest with
      | [] => [[b]]
      | part :: parts => (b :: part) :: parts

/-- The names that the path consists of. -/
def names (p : Path) : List Name := (splitSlashes p.bytes).map Name.mk

/-- The path that consists of these names. -/
def join (names : List Name) : Path := ⟨[slash].intercalate (names.map Name.bytes)⟩

end Path

end SharedCells
