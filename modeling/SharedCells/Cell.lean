/-
# SharedCells.Cell -- the atomic cell and its operations

A cell is a place in memory together with the value it holds. Its operations come in three
layers, each written in terms of the one before:

* the general operations, whose caller picks the order;
* the named operations of one width, whose order is fixed (`WordCell`, `ByteCell`);
* the entry points that other languages link against (`SharedCells.Call`).

A compare-and-swap comes in two forms. The *result* form `compareExchange` hands back the
value it found. The *in/out* form `trySwap` hands back whether it happened and what
`expected` holds afterwards, ready for the next attempt.
-/

import SharedCells.Access

namespace SharedCells

/-- **`Cell w`** -- a place in memory and the value of width `w` stored there. -/
structure Cell (w : Width) where
  address : Address
  value : Value w

/-- **`Origin`** -- the ways to make a cell. All start at the given value but `zero`, which
starts at 0. -/
inductive Origin where
  | new
  | withValue
  | conversion
  | zero

/-- **`Exchange w`** -- the outcome of a compare-and-swap in result form. -/
inductive Exchange (w : Width) where
  /-- It happened; the cell held `previous`. -/
  | swapped (previous : Value w)
  /-- It did not happen; the cell holds `actual`. -/
  | refused (actual : Value w)

/-- **`Swap w`** -- the outcome of a compare-and-swap in in/out form. -/
structure Swap (w : Width) where
  /-- Did the exchange happen? -/
  done : Bool
  /-- What `expected` holds afterwards. -/
  expected : Value w

namespace Cell

variable {w : Width}

/-- **`make`** -- a cell at `address`, made in one of the four ways. -/
def make (origin : Origin) (address : Address) (value : Value w) : Cell w :=
  match origin with
  | .new | .withValue | .conversion => ⟨address, value⟩
  | .zero => ⟨address, 0⟩

/-- One platform access of the cell. -/
def access (c : Cell w) (a : Access w) (spurious : Bool) : Observation w × Cell w :=
  let (report, value) := a.perform spurious c.value
  (report, ⟨c.address, value⟩)

/-! ## General operations -/

/-- **`load`** -- reads the value. -/
def load (c : Cell w) (order : LoadOrder) : Value w :=
  (c.access (.load order.memory) false).1.seen

/-- **`store`** -- writes a value. -/
def store (c : Cell w) (value : Value w) (order : StoreOrder) : Cell w :=
  (c.access (.store value order.memory) false).2

/-- **`compareExchange`** -- replaces the value by `new` if it equals `current`. A weak one
may fail spuriously, so its callers loop. -/
def compareExchange (strength : Strength) (c : Cell w) (current new : Value w)
    (order : SwapOrder) (spurious : Bool) : Exchange w × Cell w :=
  let (report, after) :=
    c.access (.exchange strength current new order.success order.failure) spurious
  (if report.done then .swapped report.seen else .refused report.seen, after)

/-- **`trySwap`** -- compare-and-swap in in/out form: a success leaves `expected` alone, a
failure puts the value that was found into it. -/
def trySwap (strength : Strength) (c : Cell w) (expected new : Value w)
    (order : SwapOrder) (spurious : Bool) : Swap w × Cell w :=
  match c.compareExchange strength expected new order spurious with
  | (.swapped _, after) => (⟨true, expected⟩, after)
  | (.refused actual, after) => (⟨false, actual⟩, after)

/-- **`fetchAdd`** -- adds with wraparound and returns the value from before. -/
def fetchAdd (c : Cell w) (amount : Value w) : Value w × Cell w :=
  let (report, after) := c.access (.fetchAdd amount .seqCst) false
  (report.seen, after)

/-- **`fetchSub`** -- subtracts with wraparound and returns the value from before. -/
def fetchSub (c : Cell w) (amount : Value w) : Value w × Cell w :=
  let (report, after) := c.access (.fetchSub amount .seqCst) false
  (report.seen, after)

/-! ## Plain access through the cell's address -/

/-- Reads the value without going through the platform's atomic accesses. -/
def read (c : Cell w) : Value w := c.value

/-- Writes the value without going through the platform's atomic accesses. -/
def write (c : Cell w) (value : Value w) : Cell w := { c with value }

/-! ## What the operations do to the value -/

@[simp] theorem load_eq (c : Cell w) (order : LoadOrder) : c.load order = c.value := rfl

@[simp] theorem store_eq (c : Cell w) (value : Value w) (order : StoreOrder) :
    c.store value order = ⟨c.address, value⟩ := rfl

@[simp] theorem fetchAdd_eq (c : Cell w) (amount : Value w) :
    c.fetchAdd amount = (c.value, ⟨c.address, c.value + amount⟩) := rfl

@[simp] theorem fetchSub_eq (c : Cell w) (amount : Value w) :
    c.fetchSub amount = (c.value, ⟨c.address, c.value - amount⟩) := rfl

theorem compareExchange_eq (strength : Strength) (c : Cell w) (current new : Value w)
    (order : SwapOrder) (spurious : Bool) :
    c.compareExchange strength current new order spurious =
      if Access.exchanges strength spurious c.value current then
        (.swapped c.value, ⟨c.address, new⟩)
      else (.refused c.value, c) := by
  simp only [compareExchange, access, Access.perform]
  split <;> rfl

theorem trySwap_eq (strength : Strength) (c : Cell w) (expected new : Value w)
    (order : SwapOrder) (spurious : Bool) :
    c.trySwap strength expected new order spurious =
      if Access.exchanges strength spurious c.value expected then
        (⟨true, expected⟩, ⟨c.address, new⟩)
      else (⟨false, c.value⟩, c) := by
  rw [trySwap, compareExchange_eq]
  by_cases h : Access.exchanges strength spurious c.value expected <;> simp [h]

end Cell

/-! ## The word cell's named operations -/

/-- **`WordCell`** -- a cell of one 64-bit word: counters and the like. -/
abbrev WordCell := Cell .word

namespace WordCell

/-- Reads the value with no order. -/
def loadRelaxed (c : WordCell) : Value .word := c.load .relaxed

/-- Reads the value with acquire order. -/
def loadAcquire (c : WordCell) : Value .word := c.load .acquire

/-- Reads the value in sequentially consistent order. -/
def loadSeqCst (c : WordCell) : Value .word := c.load .seqCst

/-- Writes the value with no order. -/
def storeRelaxed (c : WordCell) (value : Value .word) : WordCell := c.store value .relaxed

/-- Weak compare-and-swap with no order. -/
def trySwapRelaxed (c : WordCell) (expected new : Value .word) (spurious : Bool) :
    Swap .word × WordCell :=
  c.trySwap .weak expected new .relaxed spurious

/-- Weak compare-and-swap, acquire-release on success and acquire on failure. -/
def trySwapAcqRel (c : WordCell) (expected new : Value .word) (spurious : Bool) :
    Swap .word × WordCell :=
  c.trySwap .weak expected new .acqRel spurious

/-- Weak compare-and-swap, sequentially consistent on success. -/
def trySwapSeqCst (c : WordCell) (expected new : Value .word) (spurious : Bool) :
    Swap .word × WordCell :=
  c.trySwap .weak expected new .seqCst spurious

end WordCell

/-! ## The byte cell's named operations -/

/-- **`ByteCell`** -- a cell of one byte: flags and small state tags. -/
abbrev ByteCell := Cell .byte

namespace ByteCell

/-- Reads the value with no order. -/
def loadRelaxed (c : ByteCell) : Value .byte := c.load .relaxed

/-- Reads the value with acquire order. -/
def loadAcquire (c : ByteCell) : Value .byte := c.load .acquire

/-- Writes the value with no order. -/
def storeRelaxed (c : ByteCell) (value : Value .byte) : ByteCell := c.store value .relaxed

/-- Writes the value with release order. -/
def storeRelease (c : ByteCell) (value : Value .byte) : ByteCell := c.store value .release

/-- Strong compare-and-swap, acquire on success and relaxed on failure. It fails only if the
cell does not hold `expected`. -/
def trySwapAcquire (c : ByteCell) (expected new : Value .byte) : Swap .byte × ByteCell :=
  c.trySwap .strong expected new .acquire false

end ByteCell

end SharedCells
