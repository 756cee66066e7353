/-
# SharedCells.Host.View -- cells viewed over the host's memory

A view takes an offset of the host's memory and a width. A checked view refuses an address
that is null or misaligned; an unchecked one leaves that to its caller. A step of a host
script views the memory, works on the cell there, and leaves the cell's bytes in the memory.

The registers of a host script are kept per width, as every step names its own.
-/

import SharedCells.Host.Memory
import SharedCells.Host.Refusal
import SharedCells.Script

namespace SharedCells

namespace Memory

/-- **`cellAt`** -- the unchecked view: the cell at an offset. -/
def cellAt (m : Memory) (w : Width) (offset : Nat) : Cell w :=
  ⟨m.addressOf offset, m.valueAt w offset⟩

/-- **`tryCellAt`** -- the checked view. -/
def tryCellAt (m : Memory) (w : Width) (offset : Nat) : Except Refusal (Cell w) :=
  match Refusal.of? w (m.addressOf offset) with
  | some refusal => .error refusal
  | none => .ok (m.cellAt w offset)

/-- **`onCell`** -- works on a cell viewed at an offset, checked or not, and leaves its value
in the memory; a refused view leaves the memory alone. -/
def onCell {α : Type} (m : Memory) (w : Width) (offset : Nat) (checked : Bool)
    (work : Cell w → α × Cell w) : Except Refusal α × Memory :=
  match if checked then m.tryCellAt w offset else .ok (m.cellAt w offset) with
  | .error refusal => (.error refusal, m)
  | .ok cell =>
    let (result, after) := work cell
    (.ok result, m.setValueAt offset after.value)

end Memory

/-- **`HostStep`** -- a step of a host script. -/
structure HostStep where
  width : Width
  offset : Nat
  checked : Bool
  action : Term

/-- **`HostRegisters`** -- the registers of both widths. -/
structure HostRegisters where
  byte : Registers .byte
  word : Registers .word

namespace HostRegisters

/-- All registers at 0. -/
def start : HostRegisters := ⟨.start, .start⟩

/-- The registers of one width. -/
def get (rs : HostRegisters) : (w : Width) → Registers w
  | .byte => rs.byte
  | .word => rs.word

/-- Replaces the registers of one width. -/
def set (rs : HostRegisters) : {w : Width} → Registers w → HostRegisters
  | .byte, new => { rs with byte := new }
  | .word, new => { rs with word := new }

end HostRegisters

/-- **`HostSession`** -- the memory with the registers of the script that works on it. -/
structure HostSession where
  memory : Memory
  registers : HostRegisters

/-- **`HostAnswer`** -- what a host step hands back, with all bytes afterwards. -/
inductive HostAnswer where
  /-- The view was made; `address` is the one viewed and `viewed` the cell's own. -/
  | ran (w : Width) (answer : Option (Answer w)) (address viewed : Address) (bytes : List Byte)
  /-- The view was refused; `offset` is the refused address, counted from the base. -/
  | refused (refusal : Refusal) (offset : Nat) (log : List Event) (bytes : List Byte)
  /-- The view would leave the memory. -/
  | outside

/-- **`HostSession.step`** -- runs a host step. -/
def HostSession.step (s : HostSession) (step : HostStep) : HostAnswer × HostSession :=
  let w := step.width
  if s.memory.InBounds w step.offset then
    let work (cell : Cell w) : (Option (Answer w) × Registers w × Address) × Cell w :=
      let (answer, session) := Step.run ⟨cell, s.registers.get w⟩ (Step.ofTerm w step.action)
      ((answer, session.registers, session.cell.address), session.cell)
    match s.memory.onCell w step.offset step.checked work with
    | (.ok (answer, registers, viewed), memory) =>
      (.ran w answer (s.memory.addressOf step.offset) viewed memory.bytes,
        ⟨memory, s.registers.set registers⟩)
    | (.error refusal, memory) =>
      (.refused refusal (memory.offsetOf refusal.address) [refusal.event w] memory.bytes,
        { s with memory })
  else (.outside, s)

/-- **`HostSession.runAll`** -- runs host steps in order and keeps every answer. -/
def HostSession.runAll (s : HostSession) : List HostStep → List HostAnswer
  | [] => []
  | step :: rest =>
    let (answer, s') := s.step step
    answer :: s'.runAll rest

end SharedCells
