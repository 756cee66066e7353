/-
# SharedCells.Proofs.Host.Bytes -- values as bytes of a memory

Bytes denote a number, least significant byte first, and a value of width `w` is written as
`w.bytes` of them. For so many bytes the two are inverse to each other, so a value loses nothing
when it is written out, and bytes lose nothing when they are read as a value.

`Memory.window` are the bytes that a value at an offset consists of. Writing a value there changes
the window and no other byte; a memory is known by a window and by the bytes outside of it.

* `Value.natOfBytes_toBytes`, `Value.natOfBytes_injective` : bytes and numbers.
* `Memory.window_setValueAt`, `Memory.setValueAt_sameOutside` : what writing a value does.
* `Memory.eq_of_window` : nothing else is in a memory.
-/

import Mathlib.Algebra.Group.Nat.Defs
import SharedCells.Host.Memory

namespace SharedCells

variable {w : Width}

/-! ## Bytes and numbers -/

namespace Value

theorem natOfBytes_lt (bytes : List Byte) : natOfBytes bytes < 2 ^ (8 * bytes.length) := by
  induction bytes with
  | nil => exact Nat.one_pos
  | cons b rest ih =>
      have hb : b.toNat < 256 := b.isLt
      have hpow : 2 ^ (8 * (rest.length + 1)) = 256 * 2 ^ (8 * rest.length) := by
        rw [Nat.mul_succ, Nat.pow_add, Nat.mul_comm]
      rw [natOfBytes, List.length_cons, hpow]
      omega

theorem natOfBytes_lt_width {bytes : List Byte} (h : bytes.length = w.bytes) :
    natOfBytes bytes < 2 ^ w.bits := by
  rw [w.bits_eq, ← h]
  exact natOfBytes_lt bytes

theorem toNat_ofBytes {bytes : List Byte} (h : bytes.length = w.bytes) :
    (ofBytes w bytes).toNat = natOfBytes bytes := by
  rw [ofBytes, BitVec.toNat_ofNat, Nat.mod_eq_of_lt (natOfBytes_lt_width h)]

theorem natOfBytes_toBytes (v : Value w) : natOfBytes v.toBytes = v.toNat := by
  rw [← toNat_ofBytes v.length_toBytes, ofBytes_toBytes]

/-- So many bytes are known by the number they denote. -/
theorem natOfBytes_injective {bytes bytes' : List Byte} (hlength : bytes.length = bytes'.length)
    (h : natOfBytes bytes = natOfBytes bytes') : bytes = bytes' := by
  induction bytes generalizing bytes' with
  | nil => exact (List.length_eq_zero_iff.mp hlength.symm).symm
  | cons b rest ih =>
      cases bytes' with
      | nil => exact absurd hlength nofun
      | cons b' rest' =>
          have hb : b.toNat < 256 := b.isLt
          have hb' : b'.toNat < 256 := b'.isLt
          rw [natOfBytes, natOfBytes] at h
          have hfirst : b = b' := BitVec.eq_of_toNat_eq (by omega)
          have hrest : rest = rest' := ih (by simpa using hlength) (by omega)
          rw [hfirst, hrest]

end Value

/-! ## Windows -/

namespace Memory

variable {m m' : Memory} {offset : Nat}

/-- **`window`** -- the bytes of a value of width `w` at an offset. -/
def window (m : Memory) (w : Width) (offset : Nat) : List Byte := (m.bytes.drop offset).take w.bytes

/-- **`numberAt`** -- the number that these bytes denote. -/
def numberAt (m : Memory) (w : Width) (offset : Nat) : Nat := Value.natOfBytes (m.window w offset)

theorem length_window (h : m.InBounds w offset) : (m.window w offset).length = w.bytes := by
  have hfits : offset + w.bytes ≤ m.bytes.length := h
  rw [window, List.length_take, List.length_drop]
  omega

theorem toNat_valueAt (h : m.InBounds w offset) :
    (m.valueAt w offset).toNat = m.numberAt w offset :=
  Value.toNat_ofBytes (length_window h)

/-- **`SameOutside`** -- the memories lie at the same place, are of the same length, and differ at
most in the bytes of a value of width `w` at an offset. -/
structure SameOutside (m : Memory) (w : Width) (offset : Nat) (m' : Memory) : Prop where
  base : m'.base = m.base
  length : m'.bytes.length = m.bytes.length
  bytes : ∀ i, i < offset ∨ offset + w.bytes ≤ i → m'.bytes[i]? = m.bytes[i]?

theorem SameOutside.refl (m : Memory) (w : Width) (offset : Nat) : m.SameOutside w offset m where
  base := rfl
  length := rfl
  bytes _ _ := rfl

theorem SameOutside.symm (h : m.SameOutside w offset m') : m'.SameOutside w offset m where
  base := h.base.symm
  length := h.length.symm
  bytes i hi := (h.bytes i hi).symm

theorem SameOutside.trans {m'' : Memory} (h : m.SameOutside w offset m')
    (h' : m'.SameOutside w offset m'') : m.SameOutside w offset m'' where
  base := h'.base.trans h.base
  length := h'.length.trans h.length
  bytes i hi := (h'.bytes i hi).trans (h.bytes i hi)

theorem SameOutside.inBounds_iff {w' : Width} {other : Nat} (h : m.SameOutside w offset m') :
    m'.InBounds w' other ↔ m.InBounds w' other := by
  rw [InBounds, InBounds, h.length]

/-- A byte of the window is a byte of the memory. -/
theorem getElem?_window {i : Nat} (h : i < w.bytes) :
    (m.window w offset)[i]? = m.bytes[offset + i]? := by
  rw [window, List.getElem?_take_of_lt h, List.getElem?_drop]

/-- **`eq_of_window`** -- memories that agree outside a window and in it are the same. -/
theorem eq_of_window (outside : m.SameOutside w offset m')
    (inside : m'.window w offset = m.window w offset) : m' = m := by
  have hbytes : m'.bytes = m.bytes := by
    refine List.ext_getElem? fun i => ?_
    by_cases hi : i < offset ∨ offset + w.bytes ≤ i
    · exact outside.bytes i hi
    · obtain ⟨k, rfl⟩ : ∃ k, i = offset + k := ⟨i - offset, by omega⟩
      have hk : k < w.bytes := by omega
      rw [← getElem?_window hk, ← getElem?_window hk, inside]
  cases m
  cases m'
  rw [Memory.mk.injEq]
  exact ⟨outside.base, hbytes⟩

/-! ## Writing a value -/

/-- The bytes before those of the value. -/
theorem length_front (h : m.InBounds w offset) : (m.bytes.take offset).length = offset := by
  have hfits : offset + w.bytes ≤ m.bytes.length := h
  rw [List.length_take]
  omega

/-- Writing a value changes no byte but those of the value. -/
theorem setValueAt_sameOutside (h : m.InBounds w offset) (v : Value w) :
    m.SameOutside w offset (m.setValueAt offset v) := by
  have hfits : offset + w.bytes ≤ m.bytes.length := h
  have hfront := length_front h
  have hlength := v.length_toBytes
  refine ⟨rfl, ?_, ?_⟩
  · simp only [setValueAt, List.length_append, hfront, hlength, List.length_drop]
    omega
  · intro i hi
    rw [setValueAt, List.append_assoc]
    rcases hi with hbefore | hbehind
    · rw [List.getElem?_append_left (by omega), List.getElem?_take_of_lt hbefore]
    · rw [List.getElem?_append_right (by omega), List.getElem?_append_right (by omega),
        List.getElem?_drop, hfront, hlength]
      congr 1
      omega

theorem window_setValueAt (h : m.InBounds w offset) (v : Value w) :
    (m.setValueAt offset v).window w offset = v.toBytes := by
  rw [window, setValueAt, List.append_assoc, List.drop_left' (length_front h),
    List.take_left' v.length_toBytes]

theorem numberAt_setValueAt (h : m.InBounds w offset) (v : Value w) :
    (m.setValueAt offset v).numberAt w offset = v.toNat := by
  rw [numberAt, window_setValueAt h, Value.natOfBytes_toBytes]

/-- Outside a window the memories agree, and in it they hold the same number: they are the same. -/
theorem eq_of_numberAt (h : m.InBounds w offset) (outside : m.SameOutside w offset m')
    (inside : m'.numberAt w offset = m.numberAt w offset) : m' = m := by
  have h' : m'.InBounds w offset := outside.inBounds_iff.mpr h
  refine eq_of_window outside (Value.natOfBytes_injective ?_ inside)
  rw [length_window h, length_window h']

end Memory

end SharedCells
