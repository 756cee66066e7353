/-
# SharedCells.Host.Memory -- bytes owned by the host

The host's memory is a run of bytes from a base address on. A value of width `w` lies in
`w.bytes` successive bytes, the least significant one first. Reading and writing a value
are the two halves of a view: a cell viewed at an offset takes its value from the bytes
there and leaves the new value in them.

`ofBytes_toBytes` : writing a value out and reading it in gives the value back.
-/

import SharedCells.Width

namespace SharedCells

namespace Value

/-- **`toBytes`** -- the bytes of a value, least significant first. -/
def toBytes {w : Width} (v : Value w) : List Byte :=
  (List.range w.bytes).map fun i => BitVec.ofNat 8 (v.toNat >>> (8 * i))

/-- The number that bytes denote, least significant first. -/
def natOfBytes : List Byte → Nat
  | [] => 0
  | b :: rest => b.toNat + 256 * natOfBytes rest

/-- **`ofBytes`** -- the value that bytes denote. -/
def ofBytes (w : Width) (bytes : List Byte) : Value w :=
  BitVec.ofNat w.bits (natOfBytes bytes)

theorem length_toBytes {w : Width} (v : Value w) : v.toBytes.length = w.bytes := by
  simp [toBytes]

/-- The low bytes of a number, read back, are the number below the matching power of 256. -/
theorem natOfBytes_map_range (n k : Nat) :
    natOfBytes ((List.range k).map fun i => BitVec.ofNat 8 (n >>> (8 * i))) =
      n % (1 <<< (8 * k)) := by
  induction k generalizing n with
  | zero => simp [natOfBytes, Nat.mod_one]
  | succ k ih =>
    have hshift : ∀ i, n >>> (8 * (i + 1)) = (n >>> 8) >>> (8 * i) := fun i => by
      rw [← Nat.shiftRight_add]; congr 1; omega
    rw [List.range_succ_eq_map, List.map_cons, List.map_map]
    simp only [natOfBytes, Function.comp_def, hshift, ih]
    rw [Nat.shiftRight_eq_div_pow, Nat.shiftLeft_eq, Nat.shiftLeft_eq, Nat.one_mul, Nat.one_mul,
      Nat.mul_succ, Nat.pow_add, Nat.mul_comm (2 ^ (8 * k)), Nat.mod_mul]
    simp [BitVec.toNat_ofNat, Nat.shiftRight_eq_div_pow]

theorem ofBytes_toBytes {w : Width} (v : Value w) : ofBytes w v.toBytes = v := by
  apply BitVec.eq_of_toNat_eq
  rw [ofBytes, toBytes, natOfBytes_map_range, BitVec.toNat_ofNat, ← w.bits_eq, Nat.shiftLeft_eq,
    Nat.one_mul, Nat.mod_mod, Nat.mod_eq_of_lt v.isLt]

end Value

/-- **`Memory`** -- the host's bytes, from `base` on. -/
structure Memory where
  base : Address
  bytes : List Byte

namespace Memory

/-- The address of the byte at an offset. -/
def addressOf (m : Memory) (offset : Nat) : Address := m.base + BitVec.ofNat 64 offset

/-- How far behind the base an address lies. -/
def offsetOf (m : Memory) (p : Address) : Nat := (p - m.base).toNat

/-- Do `w.bytes` bytes from the offset on lie in the memory? -/
def InBounds (m : Memory) (w : Width) (offset : Nat) : Prop :=
  offset + w.bytes ≤ m.bytes.length

instance (m : Memory) (w : Width) (offset : Nat) : Decidable (m.InBounds w offset) :=
  inferInstanceAs (Decidable (_ ≤ _))

/-- **`valueAt`** -- the value of width `w` at an offset. -/
def valueAt (m : Memory) (w : Width) (offset : Nat) : Value w :=
  Value.ofBytes w ((m.bytes.drop offset).take w.bytes)

/-- **`setValueAt`** -- the memory with that value at an offset, every other byte as before. -/
def setValueAt (m : Memory) {w : Width} (offset : Nat) (v : Value w) : Memory :=
  { m with bytes := m.bytes.take offset ++ Value.toBytes v ++ m.bytes.drop (offset + w.bytes) }

end Memory

end SharedCells
