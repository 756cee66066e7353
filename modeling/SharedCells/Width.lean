/-
# SharedCells.Width -- the two cell widths and the values they hold

A shared cell is one byte or one 64-bit word wide. A value is a bit vector of exactly that
many bits, so addition and subtraction wrap at the width by construction. Addresses and
byte counts are 64-bit words as well.
-/

namespace SharedCells

/-- **`Width`** -- how much one cell holds. -/
inductive Width where
  | byte
  | word
  deriving DecidableEq

namespace Width

/-- The number of bits of a value. -/
def bits : Width → Nat
  | byte => 8
  | word => 64

/-- The number of bytes a cell occupies. -/
def bytes : Width → Nat
  | byte => 1
  | word => 8

/-- A cell is aligned to its own size. -/
def align (w : Width) : Nat := w.bytes

theorem bits_eq (w : Width) : w.bits = 8 * w.bytes := by cases w <;> rfl

theorem bytes_pos (w : Width) : 0 < w.bytes := by cases w <;> decide

/-- The width with the given number of bits. -/
def ofBits? (n : Nat) : Option Width :=
  if n = 8 then some byte else if n = 64 then some word else none

theorem ofBits?_bits (w : Width) : ofBits? w.bits = some w := by cases w <;> rfl

end Width

/-- **`Value w`** -- what a cell of width `w` holds; arithmetic on it wraps. -/
abbrev Value (w : Width) := BitVec w.bits

/-- **`Byte`** -- what one address holds. -/
abbrev Byte := BitVec 8

/-- **`Address`** -- a place in memory. -/
abbrev Address := BitVec 64

end SharedCells
