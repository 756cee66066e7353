/-
# SharedCells.Layout -- where a cell stands inside a record

A record's fields stand in order, each at the first offset that is a multiple of its
alignment; the record is aligned like its strictest field, and its size is rounded up to a
multiple of that. The sample record holds a byte cell, a cell of the width in question, and
a byte cell again.
-/

import SharedCells.Width

namespace SharedCells

/-- **`RecordLayout`** -- offsets of the fields in order, the size, and the alignment. -/
structure RecordLayout where
  offsets : List Nat
  size : Nat
  align : Nat

namespace RecordLayout

/-- The least multiple of `align` that is not below `n`. -/
def roundUp (n align : Nat) : Nat := (n + align - 1) / align * align

/-- The record so far, with one more field at its end. -/
def push (r : RecordLayout) (w : Width) : RecordLayout :=
  let offset := roundUp r.size w.align
  ⟨r.offsets ++ [offset], offset + w.bytes, max r.align w.align⟩

/-- **`ofFields`** -- the layout of a record of cells. -/
def ofFields (fields : List Width) : RecordLayout :=
  let packed := fields.foldl push ⟨[], 0, 1⟩
  { packed with size := roundUp packed.size packed.align }

/-- A byte cell before and after a cell of width `w`. -/
def sample (w : Width) : RecordLayout := ofFields [.byte, w, .byte]

end RecordLayout

/-- The least value of a cell. -/
def Width.least (w : Width) : Value w := 0

/-- The greatest value of a cell. -/
def Width.greatest (w : Width) : Value w := BitVec.allOnes w.bits

end SharedCells
