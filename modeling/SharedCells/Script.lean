/-
# SharedCells.Script -- lists of steps on one cell

A script is written as nested lists of words. A step is a list whose first word names an
entry point and whose other words are its arguments, or it repeats a list of steps. An
argument of a call is a number that fits the cell's width, or one of two registers:

* `e`, the expected value that the last compare-and-swap handed back;
* `r`, the last number that a load, a fetch, a read or a compare-and-swap in result form
  returned.

Both start at 0 and are read before the step runs. A step that cannot be read as one, or
names an entry point that the width does not have, is answered as unreadable and changes
nothing; the script goes on after it.
-/

import SharedCells.Call

namespace SharedCells

/-- **`Term`** -- the written form of a script. -/
inductive Term where
  | word (text : String)
  | number (n : Nat)
  | list (items : List Term)
  /-- Anything that no step contains. -/
  | foreign

/-- **`Operand w`** -- an argument of a call in a script. -/
inductive Operand (w : Width) where
  | literal (value : Value w)
  | expected
  | last

/-- **`Step w`** -- one step of a script. -/
inductive Step (w : Width) where
  | call (c : Call (Operand w) w)
  | times (count : Nat) (steps : List (Step w))
  | unreadable

/-- **`Registers w`** -- what a script remembers between its steps. -/
structure Registers (w : Width) where
  expected : Value w
  last : Value w

/-- **`Session w`** -- a cell with the registers of the script that works on it. -/
structure Session (w : Width) where
  cell : Cell w
  registers : Registers w

/-- **`Answer w`** -- what a step hands back, with the cell's value afterwards. -/
inductive Answer (w : Width) where
  | replied (reply : Reply w) (after : Value w)
  | unreadable (after : Value w)

/-! ## Reading steps -/

/-- An argument: a register's name, or a number that fits the width. -/
def Operand.ofText? {w : Width} (text : String) : Option (Operand w) :=
  if text = "e" then some expected
  else if text = "r" then some last
  else (Numeral.readBelow? (1 <<< w.bits) text.toList).map fun n => literal (BitVec.ofNat _ n)

namespace Call

variable {w : Width}

/-- The call with no argument that the name stands for at every width. -/
def ofName? (name : String) : Option (Call (Operand w) w) :=
  match name with
  | "as_ptr" => some address
  | "ptr_read" => some read
  | "thread_fence_seqcst" => some (fence (.named .seqCst))
  | "thread_fence_acquire" => some (fence (.named .acquire))
  | "acell_thread_fence_seqcst" => some (fence (.exported .seqCst))
  | "acell_thread_fence_acquire" => some (fence (.exported .acquire))
  | _ => none

/-- The general call that the name and its arguments stand for. -/
def ofWords? (name : String) (args : List String) : Option (Call (Operand w) w) :=
  match name, args with
  | "load", [o] => (LoadOrder.ofName? o).map load
  | "store", [v, o] => store <$> Operand.ofText? v <*> StoreOrder.ofName? o
  | "compare_exchange", [c, n, o] =>
    compareExchange .strong <$> Operand.ofText? c <*> Operand.ofText? n <*> SwapOrder.ofName? o
  | "compare_exchange_weak", [c, n, o] =>
    compareExchange .weak <$> Operand.ofText? c <*> Operand.ofText? n <*> SwapOrder.ofName? o
  | "cmpxchg_strong", [e, n, o] =>
    trySwap .strong <$> Operand.ofText? e <*> Operand.ofText? n <*> SwapOrder.ofName? o
  | "cmpxchg_weak", [e, n, o] =>
    trySwap .weak <$> Operand.ofText? e <*> Operand.ofText? n <*> SwapOrder.ofName? o
  | "fetch_add", [n] => (Operand.ofText? n).map fetchAdd
  | "fetch_sub", [n] => (Operand.ofText? n).map fetchSub
  | "debug", [f] => (DebugFormat.ofText? f).map debug
  | "ptr_write", [v] => (Operand.ofText? v).map write
  | "fence", [o] => (FenceOrder.ofName? o).map fun o => fence (.general o)
  | name, [] => ofName? name
  | _, _ => none

end Call

/-- The word method of that name. -/
def WordMethod.ofWords? (name : String) (args : List String) :
    Option (WordMethod (Operand .word)) :=
  match name, args with
  | "load_relaxed", [] => some loadRelaxed
  | "load_acquire", [] => some loadAcquire
  | "load_seqcst", [] => some loadSeqCst
  | "store_relaxed", [v] => (Operand.ofText? v).map storeRelaxed
  | "cmpxchg_relaxed", [e, n] => trySwapRelaxed <$> Operand.ofText? e <*> Operand.ofText? n
  | "cmpxchg_acqrel", [e, n] => trySwapAcqRel <$> Operand.ofText? e <*> Operand.ofText? n
  | "cmpxchg_seqcst", [e, n] => trySwapSeqCst <$> Operand.ofText? e <*> Operand.ofText? n
  | _, _ => none

/-- The exported word entry point of that name, its common first part left off. -/
def WordExport.ofWords? (name : String) (args : List String) :
    Option (WordExport (Operand .word)) :=
  match name, args with
  | "fetch_add", [n] => (Operand.ofText? n).map fetchAdd
  | "fetch_sub", [n] => (Operand.ofText? n).map fetchSub
  | name, args => (WordMethod.ofWords? name args).map method

/-- The byte method of that name. -/
def ByteMethod.ofWords? (name : String) (args : List String) :
    Option (ByteMethod (Operand .byte)) :=
  match name, args with
  | "load_relaxed", [] => some loadRelaxed
  | "load_acquire", [] => some loadAcquire
  | "store_relaxed", [v] => (Operand.ofText? v).map storeRelaxed
  | "store_release", [v] => (Operand.ofText? v).map storeRelease
  | "cmpxchg_strong_acquire", [e, n] =>
    trySwapAcquire <$> Operand.ofText? e <*> Operand.ofText? n
  | _, _ => none

/-- The name without the given beginning, which it has to have. -/
def Call.dropStart? (start name : String) : Option String :=
  if start.toList.isPrefixOf name.toList then
    some (String.ofList (name.toList.drop start.length))
  else none

/-- The call that belongs to one width only. -/
def Call.ofWordsAt? (w : Width) (name : String) (args : List String) :
    Option (Call (Operand w) w) :=
  match w with
  | .word =>
    match name, args with
    | "cell_fence_seqcst", [] => some (.wordFence .seqCst)
    | "cell_fence_acquire", [] => some (.wordFence .acquire)
    | name, args =>
      match Call.dropStart? "acell_u64_" name with
      | some exported => (WordExport.ofWords? exported args).map .wordExport
      | none => (WordMethod.ofWords? name args).map .wordMethod
  | .byte =>
    match Call.dropStart? "acell_u8_" name with
    | some exported => (ByteMethod.ofWords? exported args).map .byteExport
    | none => (ByteMethod.ofWords? name args).map .byteMethod

/-- The word that a term consists of. -/
def Term.word? : Term → Option String
  | word text => some text
  | _ => none

/-- **`Step.ofTerm`** -- reads a step. -/
def Step.ofTerm (w : Width) : Term → Step w
  | .list [.word "repeat", .number count, .list items] =>
    times count (items.map (Step.ofTerm w))
  | .list (.word name :: args) =>
    match args.mapM Term.word? with
    | none => unreadable
    | some words =>
      match (Call.ofWords? name words).or (Call.ofWordsAt? w name words) with
      | none => unreadable
      | some c => call c
  | _ => unreadable

/-! ## Running steps -/

namespace Registers

variable {w : Width}

/-- Both registers at 0. -/
def start : Registers w := ⟨0, 0⟩

/-- The value of an argument. -/
def value (rs : Registers w) : Operand w → Value w
  | .literal v => v
  | .expected => rs.expected
  | .last => rs.last

/-- The registers after a reply. -/
def after (rs : Registers w) : Reply w → Registers w
  | .value v => { rs with last := v }
  | .exchange (.swapped previous) => { rs with last := previous }
  | .exchange (.refused actual) => ⟨actual, actual⟩
  | .swap outcome => { rs with expected := outcome.expected }
  | _ => rs

end Registers

namespace Session

variable {w : Width}

/-- One call: its arguments are read first, and a weak compare-and-swap is settled. -/
def call (s : Session w) (c : Call (Operand w) w) : Answer w × Session w :=
  let (reply, cell) := (c.map s.registers.value).settle [] s.cell
  (.replied reply cell.value, ⟨cell, s.registers.after reply⟩)

/-- Repeats a run of steps, each answer replacing the one before. -/
def repeatTimes (run : Option (Answer w) × Session w → Option (Answer w) × Session w) :
    Nat → Option (Answer w) × Session w → Option (Answer w) × Session w
  | 0, s => s
  | count + 1, s => repeatTimes run count (run s)

end Session

mutual

/-- **`Step.run`** -- runs a step. The answer of a repetition is that of the last step it ran,
and there is none if it ran no step. -/
def Step.run {w : Width} (s : Session w) : Step w → Option (Answer w) × Session w
  | .call c =>
    let (answer, s') := s.call c
    (some answer, s')
  | .times count steps =>
    Session.repeatTimes (fun t => Step.runLast t steps) count (none, s)
  | .unreadable => (some (.unreadable s.cell.value), s)

/-- Runs steps in order and keeps the last one's answer. -/
def Step.runLast {w : Width} (t : Option (Answer w) × Session w) :
    List (Step w) → Option (Answer w) × Session w
  | [] => t
  | step :: rest => Step.runLast (Step.run t.2 step) rest

end

/-- **`Session.runAll`** -- runs steps in order and keeps every answer. -/
def Session.runAll {w : Width} (s : Session w) :
    List (Step w) → List (Option (Answer w)) × Session w
  | [] => ([], s)
  | step :: rest =>
    let (answer, s') := Step.run s step
    let (answers, last) := s'.runAll rest
    (answer :: answers, last)

/-- The session of a script at its start: the cell as given, the registers at 0. -/
def Session.start {w : Width} (cell : Cell w) : Session w := ⟨cell, .start⟩

/-- **`runScript`** -- the answers of a script on a cell. -/
def runScript {w : Width} (cell : Cell w) (steps : List Term) : List (Option (Answer w)) :=
  ((Session.start cell).runAll (steps.map (Step.ofTerm w))).1

end SharedCells
