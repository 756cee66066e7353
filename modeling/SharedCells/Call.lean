/-
# SharedCells.Call -- every entry point, as data

A call names an entry point of a cell together with its arguments. The arguments' type is
a parameter: a script's calls hold operands, which are read when their turn comes, and a
call that runs holds values.

The three layers of entry points stay apart. A call of the general layer runs a `Cell`
operation; a named method of one width runs its `WordCell` or `ByteCell` operation; an
exported entry point, the form that other languages link against, forwards to the general
or named one it stands for.

`Call.settle` repeats a weak compare-and-swap as long as it failed spuriously.
-/

import SharedCells.Cell
import SharedCells.Text.Debug

namespace SharedCells

/-- **`WordMethod`** -- the word cell's operations of fixed order. -/
inductive WordMethod (α : Type) where
  | loadRelaxed
  | loadAcquire
  | loadSeqCst
  | storeRelaxed (value : α)
  | trySwapRelaxed (expected new : α)
  | trySwapAcqRel (expected new : α)
  | trySwapSeqCst (expected new : α)

/-- **`WordExport`** -- the word cell's exported entry points. -/
inductive WordExport (α : Type) where
  | method (m : WordMethod α)
  | fetchAdd (amount : α)
  | fetchSub (amount : α)

/-- **`ByteMethod`** -- the byte cell's operations of fixed order; all are exported too. -/
inductive ByteMethod (α : Type) where
  | loadRelaxed
  | loadAcquire
  | storeRelaxed (value : α)
  | storeRelease (value : α)
  | trySwapAcquire (expected new : α)

/-- **`FenceCall`** -- the fences that belong to no width. -/
inductive FenceCall where
  | general (order : FenceOrder)
  | named (order : FenceOrder)
  | exported (order : FenceOrder)

/-- **`Call α w`** -- an entry point of a cell of width `w`, with arguments from `α`. -/
inductive Call (α : Type) : Width → Type where
  | load {w : Width} (order : LoadOrder) : Call α w
  | store {w : Width} (value : α) (order : StoreOrder) : Call α w
  | compareExchange {w : Width} (strength : Strength) (current new : α) (order : SwapOrder) :
      Call α w
  | trySwap {w : Width} (strength : Strength) (expected new : α) (order : SwapOrder) : Call α w
  | fetchAdd {w : Width} (amount : α) : Call α w
  | fetchSub {w : Width} (amount : α) : Call α w
  | debug {w : Width} (format : DebugFormat) : Call α w
  | address {w : Width} : Call α w
  | read {w : Width} : Call α w
  | write {w : Width} (value : α) : Call α w
  | fence {w : Width} (f : FenceCall) : Call α w
  | wordFence (order : FenceOrder) : Call α .word
  | wordMethod (m : WordMethod α) : Call α .word
  | wordExport (m : WordExport α) : Call α .word
  | byteMethod (m : ByteMethod α) : Call α .byte
  | byteExport (m : ByteMethod α) : Call α .byte

/-- **`Reply w`** -- what a call hands back. -/
inductive Reply (w : Width) where
  /-- Nothing but its return: stores, writes and fences. -/
  | done
  /-- The value seen: loads, fetches and reads. -/
  | value (v : Value w)
  /-- A compare-and-swap in result form. -/
  | exchange (outcome : Exchange w)
  /-- A compare-and-swap in in/out form. -/
  | swap (outcome : Swap w)
  | text (t : String)
  | address (a : Address)

/-! ## Arguments -/

/-- Applies a function to the arguments of a word method. -/
def WordMethod.map {α β : Type} (f : α → β) : WordMethod α → WordMethod β
  | loadRelaxed => .loadRelaxed
  | loadAcquire => .loadAcquire
  | loadSeqCst => .loadSeqCst
  | storeRelaxed v => .storeRelaxed (f v)
  | trySwapRelaxed e n => .trySwapRelaxed (f e) (f n)
  | trySwapAcqRel e n => .trySwapAcqRel (f e) (f n)
  | trySwapSeqCst e n => .trySwapSeqCst (f e) (f n)

/-- Applies a function to the arguments of an exported word entry point. -/
def WordExport.map {α β : Type} (f : α → β) : WordExport α → WordExport β
  | method m => .method (m.map f)
  | fetchAdd n => .fetchAdd (f n)
  | fetchSub n => .fetchSub (f n)

/-- Applies a function to the arguments of a byte method. -/
def ByteMethod.map {α β : Type} (f : α → β) : ByteMethod α → ByteMethod β
  | loadRelaxed => .loadRelaxed
  | loadAcquire => .loadAcquire
  | storeRelaxed v => .storeRelaxed (f v)
  | storeRelease v => .storeRelease (f v)
  | trySwapAcquire e n => .trySwapAcquire (f e) (f n)

/-- **`Call.map`** -- applies a function to the arguments of a call. -/
def Call.map {α β : Type} {w : Width} (f : α → β) : Call α w → Call β w
  | load o => .load o
  | store v o => .store (f v) o
  | compareExchange s c n o => .compareExchange s (f c) (f n) o
  | trySwap s e n o => .trySwap s (f e) (f n) o
  | fetchAdd n => .fetchAdd (f n)
  | fetchSub n => .fetchSub (f n)
  | debug d => .debug d
  | address => .address
  | read => .read
  | write v => .write (f v)
  | fence o => .fence o
  | wordFence o => .wordFence o
  | wordMethod m => .wordMethod (m.map f)
  | wordExport m => .wordExport (m.map f)
  | byteMethod m => .byteMethod (m.map f)
  | byteExport m => .byteExport (m.map f)

/-! ## Running a call -/

/-- The reply that hands back a value. -/
def Reply.ofFetch {w : Width} (r : Value w × Cell w) : Reply w × Cell w := (.value r.1, r.2)

/-- The reply of a compare-and-swap in in/out form. -/
def Reply.ofSwap {w : Width} (r : Swap w × Cell w) : Reply w × Cell w := (.swap r.1, r.2)

/-- Runs a word method. -/
def WordMethod.run (spurious : Bool) (c : WordCell) :
    WordMethod (Value .word) → Reply .word × WordCell
  | loadRelaxed => (.value c.loadRelaxed, c)
  | loadAcquire => (.value c.loadAcquire, c)
  | loadSeqCst => (.value c.loadSeqCst, c)
  | storeRelaxed v => (.done, c.storeRelaxed v)
  | trySwapRelaxed e n => Reply.ofSwap (c.trySwapRelaxed e n spurious)
  | trySwapAcqRel e n => Reply.ofSwap (c.trySwapAcqRel e n spurious)
  | trySwapSeqCst e n => Reply.ofSwap (c.trySwapSeqCst e n spurious)

/-- Runs an exported word entry point: each forwards to the operation it exports. -/
def WordExport.run (spurious : Bool) (c : WordCell) :
    WordExport (Value .word) → Reply .word × WordCell
  | method m => m.run spurious c
  | fetchAdd n => Reply.ofFetch (c.fetchAdd n)
  | fetchSub n => Reply.ofFetch (c.fetchSub n)

/-- Runs a byte method. -/
def ByteMethod.run (c : ByteCell) : ByteMethod (Value .byte) → Reply .byte × ByteCell
  | loadRelaxed => (.value c.loadRelaxed, c)
  | loadAcquire => (.value c.loadAcquire, c)
  | storeRelaxed v => (.done, c.storeRelaxed v)
  | storeRelease v => (.done, c.storeRelease v)
  | trySwapAcquire e n => Reply.ofSwap (c.trySwapAcquire e n)

/-- The cell's text: a tuple of its one value, loaded with no order. -/
def Cell.debugText {w : Width} (c : Cell w) (format : DebugFormat) : String :=
  String.ofList (format.tuple "AtomicCell" [format.number (c.load .relaxed).toNat])

namespace Call

variable {w : Width}

/-- **`run`** -- one call of an entry point. A fence orders accesses around it and leaves the
cell alone. -/
def run (spurious : Bool) (c : Cell w) : Call (Value w) w → Reply w × Cell w
  | load o => (.value (c.load o), c)
  | store v o => (.done, c.store v o)
  | compareExchange s current new o =>
    let (outcome, after) := c.compareExchange s current new o spurious
    (.exchange outcome, after)
  | trySwap s expected new o => Reply.ofSwap (c.trySwap s expected new o spurious)
  | fetchAdd n => Reply.ofFetch (c.fetchAdd n)
  | fetchSub n => Reply.ofFetch (c.fetchSub n)
  | debug format => (.text (c.debugText format), c)
  | address => (.address c.address, c)
  | read => (.value c.read, c)
  | write v => (.done, c.write v)
  | fence _ => (.done, c)
  | wordFence _ => (.done, c)
  | wordMethod m => m.run spurious c
  | wordExport m => m.run spurious c
  | byteMethod m => m.run c
  | byteExport m => m.run c

/-- **`expected?`** -- the value that a weak compare-and-swap expects to find; `none` for
calls that cannot fail spuriously. -/
def expected? {α : Type} : Call α w → Option α
  | compareExchange .weak current _ _ => some current
  | trySwap .weak expected _ _ => some expected
  | wordMethod (.trySwapRelaxed e _) => some e
  | wordMethod (.trySwapAcqRel e _) => some e
  | wordMethod (.trySwapSeqCst e _) => some e
  | wordExport (.method (.trySwapRelaxed e _)) => some e
  | wordExport (.method (.trySwapAcqRel e _)) => some e
  | wordExport (.method (.trySwapSeqCst e _)) => some e
  | _ => none

end Call

/-- The value that a compare-and-swap found when it did not happen. -/
def Reply.refusal? {w : Width} : Reply w → Option (Value w)
  | exchange (.refused actual) => some actual
  | swap ⟨false, expected⟩ => some expected
  | _ => none

/-- What `expected` holds after an in/out compare-and-swap, and `before` after other calls. -/
def Reply.expectedD {w : Width} (before : Value w) : Reply w → Value w
  | swap outcome => outcome.expected
  | _ => before

/-- The word method to call after a failed attempt. -/
def WordMethod.resume (reply : Reply .word) :
    WordMethod (Value .word) → WordMethod (Value .word)
  | trySwapRelaxed e n => .trySwapRelaxed (reply.expectedD e) n
  | trySwapAcqRel e n => .trySwapAcqRel (reply.expectedD e) n
  | trySwapSeqCst e n => .trySwapSeqCst (reply.expectedD e) n
  | m => m

namespace Call

variable {w : Width}

/-- Did the call fail although it found the value it expected? -/
def failedSpuriously (call : Call (Value w) w) (reply : Reply w) : Bool :=
  match call.expected?, reply.refusal? with
  | some expected, some found => expected == found
  | _, _ => false

/-- The call to make after a failed attempt: in in/out form it takes over the `expected` that
the attempt left behind, in result form its arguments stay. -/
def resume (reply : Reply w) : Call (Value w) w → Call (Value w) w
  | trySwap s e n o => trySwap s (reply.expectedD e) n o
  | wordMethod m => wordMethod (m.resume reply)
  | wordExport (.method m) => wordExport (.method (m.resume reply))
  | call => call

/-- **`settle`** -- makes the call, and resumes it as long as it failed spuriously. The list
says which attempts the platform spoils; after its end, none. -/
def settle (spoiled : List Bool) (c : Cell w) (call : Call (Value w) w) : Reply w × Cell w :=
  match spoiled with
  | [] => call.run false c
  | spurious :: later =>
    let (reply, after) := call.run spurious c
    if call.failedSpuriously reply then settle later after (call.resume reply)
    else (reply, after)

end Call

end SharedCells
