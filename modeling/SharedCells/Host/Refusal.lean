/-
# SharedCells.Host.Refusal -- addresses that cannot be viewed as a cell

The host hands over addresses of memory it owns. An address can be viewed as a cell of
width `w` unless it is null or no multiple of the cell's alignment. A refusal says which,
and in the second case carries the address and the alignment it lacks.
-/

import SharedCells.Width
import SharedCells.Event
import SharedCells.Text.Debug

namespace SharedCells

/-- **`Refusal`** -- why an address cannot be viewed as a cell. -/
inductive Refusal where
  | null
  | misaligned (address align : Address)
  deriving DecidableEq

namespace Refusal

/-- **`of?`** -- the reason to refuse an address at width `w`, if there is one. -/
def of? (w : Width) (p : Address) : Option Refusal :=
  if p = 0 then some null
  else if p.toNat % w.align ≠ 0 then some (misaligned p (BitVec.ofNat 64 w.align))
  else none

/-- The name of the kind of refusal. -/
def name : Refusal → String
  | null => "Null"
  | misaligned .. => "Misaligned"

/-- The address that was refused. -/
def address : Refusal → Address
  | null => 0
  | misaligned address _ => address

/-- **`message`** -- the sentence shown to a user. -/
def message : Refusal → List Char
  | null => "cell pointer is null".toList
  | misaligned address align =>
    "cell pointer 0x".toList ++ Numeral.hex address.toNat
      ++ " is not aligned to ".toList ++ Numeral.decimal align.toNat ++ " bytes".toList

/-- **`debugText`** -- the value written for a developer. -/
def debugText (format : DebugFormat) (r : Refusal) : List Char :=
  match r with
  | null => r.name.toList
  | misaligned address align =>
    format.record r.name [("addr", format.number address.toNat),
      ("align", format.number align.toNat)]

/-- **`event`** -- what is logged when an address is refused at width `w`. -/
def event (w : Width) : Refusal → Event
  | null => ⟨.debug, "rejected null cell pointer", [("bits", w.bits.repr)]⟩
  | misaligned address align =>
    ⟨.debug, "rejected misaligned cell pointer",
      [("bits", w.bits.repr), ("addr", address.toNat.repr), ("align", align.toNat.repr)]⟩

/-- A refusal carries the address that was asked for. -/
theorem address_of_of?_eq_some {w : Width} {p : Address} {r : Refusal} (h : of? w p = some r) :
    r.address = p := by
  unfold of? at h
  split at h
  · next hp =>
    injection h with h
    rw [← h, hp, address]
  · split at h
    · injection h with h
      rw [← h, address]
    · contradiction

theorem of?_eq_none_iff {w : Width} {p : Address} :
    of? w p = none ↔ p ≠ 0 ∧ p.toNat % w.align = 0 := by
  unfold of?
  split
  · simp_all
  · split <;> simp_all

/-- A byte can be viewed everywhere but at the null address. -/
theorem of?_byte (p : Address) : of? .byte p = if p = 0 then some null else none := by
  simp [of?, Width.align, Width.bytes, Nat.mod_one]

end Refusal

end SharedCells
