/-
# SharedCells.Proofs.Host.Views -- a view is a cell, and it stays in its bytes

A host lets views of both widths work on one memory, at any offsets, so that they overlap. Still
every step is told in terms of one cell: a cell of the view's width that stands anywhere, and holds
the number that the bytes at the offset denote. `Memory.StepAsCell` says so. The view replies as
that cell does and leaves that cell's new value in its bytes; all other bytes are as before. A word
view of an address that is no multiple of eight is refused and leaves the whole memory as before.

`StepAsCell` does not ask whether the view was checked, and it leaves no choice: so a checked and an
unchecked view of an aligned address do the same.

* `Call.run_placeless` : what a call does is independent of where the cell stands.
* `Memory.view_asCell` : one step; `Memory.StepAsCell.unique` : it has no other result.
* `Memory.viewAll_asCells` : all steps of a host, whatever their widths and offsets.
-/

import SharedCells.Host.View
import SharedCells.Proofs.Host.Bytes

namespace SharedCells

variable {w : Width}

/-! ## Where a cell stands -/

/-- **`heldAt`** -- the reply of a cell that stands elsewhere: the address changes, if it is one. -/
def Reply.heldAt (place : Address) : Reply w → Reply w
  | address _ => address place
  | reply => reply

/-- **`Placeless`** -- what is done with a cell is independent of where the cell stands. -/
def Placeless (run : Cell w → Reply w × Cell w) : Prop :=
  ∀ place other v,
    run ⟨place, v⟩ = ((run ⟨other, v⟩).1.heldAt place, ⟨place, (run ⟨other, v⟩).2.value⟩)

theorem Cell.compareExchange_placeless (strength : Strength) (current new : Value w)
    (order : SwapOrder) (spurious : Bool) :
    Placeless fun c : Cell w =>
      (.exchange (c.compareExchange strength current new order spurious).1,
        (c.compareExchange strength current new order spurious).2) := by
  intro place other v
  simp only [compareExchange_eq]
  by_cases h : Access.exchanges strength spurious v current = true
  · rw [if_pos h, if_pos h]
    rfl
  · rw [if_neg h, if_neg h]
    rfl

theorem Cell.trySwap_placeless (strength : Strength) (expected new : Value w)
    (order : SwapOrder) (spurious : Bool) :
    Placeless fun c : Cell w => Reply.ofSwap (c.trySwap strength expected new order spurious) := by
  intro place other v
  simp only [trySwap_eq]
  by_cases h : Access.exchanges strength spurious v expected = true
  · rw [if_pos h, if_pos h]
    rfl
  · rw [if_neg h, if_neg h]
    rfl

theorem WordMethod.run_placeless (spurious : Bool) (m : WordMethod (Value .word)) :
    Placeless fun c => m.run spurious c := by
  cases m with
  | loadRelaxed | loadAcquire | loadSeqCst | storeRelaxed => exact fun _ _ _ => rfl
  | trySwapRelaxed e n => exact Cell.trySwap_placeless .weak e n .relaxed spurious
  | trySwapAcqRel e n => exact Cell.trySwap_placeless .weak e n .acqRel spurious
  | trySwapSeqCst e n => exact Cell.trySwap_placeless .weak e n .seqCst spurious

theorem ByteMethod.run_placeless (m : ByteMethod (Value .byte)) :
    Placeless fun c => m.run c := by
  cases m with
  | loadRelaxed | loadAcquire | storeRelaxed | storeRelease => exact fun _ _ _ => rfl
  | trySwapAcquire e n => exact Cell.trySwap_placeless .strong e n .acquire false

/-- **`run_placeless`** -- what a call does is independent of where the cell stands. -/
theorem Call.run_placeless (spurious : Bool) (call : Call (Value w) w) :
    Placeless fun c => call.run spurious c := by
  cases call with
  | load | store | fetchAdd | fetchSub | debug | address | read | write | fence | wordFence =>
      exact fun _ _ _ => rfl
  | compareExchange s current new o => exact Cell.compareExchange_placeless s current new o spurious
  | trySwap s expected new o => exact Cell.trySwap_placeless s expected new o spurious
  | wordMethod m => exact m.run_placeless spurious
  | wordExport m =>
      cases m with
      | method m => exact m.run_placeless spurious
      | fetchAdd | fetchSub => exact fun _ _ _ => rfl
  | byteMethod m | byteExport m => exact m.run_placeless

/-! ## Steps of a host -/

/-- **`ViewStep`** -- a view of the memory, and the call that is made on the cell there. -/
structure ViewStep where
  width : Width
  offset : Nat
  checked : Bool
  call : Call (Value width) width
  spurious : Bool

/-- **`ViewOutcome`** -- what comes of a view: a refusal, or the cell's own address and the reply
of the call. -/
inductive ViewOutcome where
  | refused (refusal : Refusal)
  | ran (w : Width) (viewed : Address) (reply : Reply w)

namespace ViewStep

/-- What is done with the cell. -/
def work (s : ViewStep) (c : Cell s.width) : (Address × Reply s.width) × Cell s.width :=
  ((c.address, (s.call.run s.spurious c).1), (s.call.run s.spurious c).2)

/-- The same step with the view checked. -/
def asChecked (s : ViewStep) : ViewStep := { s with checked := true }

/-- **`Legal`** -- the bytes of the view lie in the memory, and the host leaves the check out only
where the address is aligned. -/
structure Legal (s : ViewStep) (m : Memory) : Prop where
  inBounds : m.InBounds s.width s.offset
  aligned : s.checked = false → (m.base.toNat + s.offset) % s.width.align = 0

end ViewStep

namespace Memory

/-- **`view`** -- runs one step. -/
def view (m : Memory) (s : ViewStep) : ViewOutcome × Memory :=
  match m.onCell s.width s.offset s.checked s.work with
  | (.error refusal, after) => (.refused refusal, after)
  | (.ok (viewed, reply), after) => (.ran s.width viewed reply, after)

/-- **`viewAll`** -- runs steps one after another. -/
def viewAll (m : Memory) : List ViewStep → List ViewOutcome × Memory
  | [] => ([], m)
  | s :: steps =>
    let (outcome, after) := m.view s
    let (outcomes, last) := after.viewAll steps
    (outcome :: outcomes, last)

/-- **`Placed`** -- the memory does not begin at the null address, and does not reach past the last
address there is. -/
structure Placed (m : Memory) : Prop where
  base_ne_zero : m.base ≠ 0
  fits : m.base.toNat + m.bytes.length ≤ 2 ^ 64

/-- **`StepAsCell m s outcome after`** -- a step of a host, told in terms of one cell. -/
inductive StepAsCell (m : Memory) (s : ViewStep) : ViewOutcome → Memory → Prop
  | refused {address : Address} (here : address.toNat = m.base.toNat + s.offset)
      (wide : s.width = .word) (crooked : address.toNat % 8 ≠ 0) :
      StepAsCell m s (.refused (.misaligned address 8)) m
  | ran {address : Address} {reply : Reply s.width} {after : Memory}
      (here : address.toNat = m.base.toNat + s.offset)
      (straight : s.width = .word → address.toNat % 8 = 0)
      -- A cell that holds what the bytes denote, wherever it stands, replies like this and then
      -- holds what the bytes denote afterwards.
      (alike : ∀ cell : Cell s.width, cell.value.toNat = m.numberAt s.width s.offset →
        reply = (s.call.run s.spurious cell).1.heldAt address ∧
          after.numberAt s.width s.offset = (s.call.run s.spurious cell).2.value.toNat)
      (frame : m.SameOutside s.width s.offset after) :
      StepAsCell m s (.ran s.width address reply) after

/-- **`RunAsCells`** -- steps one after another, each told in terms of a cell. -/
inductive RunAsCells : Memory → List ViewStep → List ViewOutcome → Memory → Prop
  | done (m : Memory) : RunAsCells m [] [] m
  | step {m after last : Memory} {s : ViewStep} {outcome : ViewOutcome} {steps : List ViewStep}
      {outcomes : List ViewOutcome} (first : StepAsCell m s outcome after)
      (later : RunAsCells after steps outcomes last) :
      RunAsCells m (s :: steps) (outcome :: outcomes) last

variable {m after after' last last' : Memory} {s : ViewStep} {steps : List ViewStep}
  {outcome outcome' : ViewOutcome} {outcomes outcomes' : List ViewOutcome}

/-! ## One step -/

theorem Placed.toNat_addressOf (placed : m.Placed) {offset : Nat} (h : m.InBounds w offset) :
    (m.addressOf offset).toNat = m.base.toNat + offset := by
  have hfits := placed.fits
  have hbounds : offset + w.bytes ≤ m.bytes.length := h
  have hwidth := w.bytes_pos
  rw [addressOf, BitVec.toNat_add, BitVec.toNat_ofNat, Nat.mod_eq_of_lt (by omega : offset < 2 ^ 64),
    Nat.mod_eq_of_lt (by omega)]

theorem Placed.addressOf_ne_zero (placed : m.Placed) {offset : Nat} (h : m.InBounds w offset) :
    m.addressOf offset ≠ 0 := by
  intro hzero
  have haddress := placed.toNat_addressOf h
  have hnull : (m.addressOf offset).toNat = 0 := congrArg BitVec.toNat hzero
  have hbase : m.base.toNat = 0 := by omega
  exact placed.base_ne_zero (BitVec.eq_of_toNat_eq hbase)

theorem onCell_refused {α : Type} {offset : Nat} {refusal : Refusal}
    (h : Refusal.of? w (m.addressOf offset) = some refusal) (work : Cell w → α × Cell w) :
    m.onCell w offset true work = (.error refusal, m) := by
  rw [onCell, if_pos rfl, tryCellAt, h]

/-- A view that is not refused, and one that is not checked, works on the cell. -/
theorem onCell_accepted {α : Type} {offset : Nat} {checked : Bool}
    (h : checked = true → Refusal.of? w (m.addressOf offset) = none)
    (work : Cell w → α × Cell w) :
    m.onCell w offset checked work =
      (.ok (work (m.cellAt w offset)).1,
        m.setValueAt offset (work (m.cellAt w offset)).2.value) := by
  rw [onCell]
  cases checked with
  | false => rfl
  | true => rw [if_pos rfl, tryCellAt, h rfl]

/-- A step whose view is refused leaves the memory as it was. -/
theorem view_refused {refusal : Refusal} (checked : s.checked = true)
    (h : Refusal.of? s.width (m.addressOf s.offset) = some refusal) :
    m.view s = (.refused refusal, m) := by
  rw [view, checked, onCell_refused h]

/-- Any other step replies as the cell in the memory does, and leaves that cell's value there. -/
theorem view_accepted
    (h : s.checked = true → Refusal.of? s.width (m.addressOf s.offset) = none) :
    m.view s =
      (.ran s.width (m.addressOf s.offset)
          (s.call.run s.spurious (m.cellAt s.width s.offset)).1,
        m.setValueAt s.offset (s.call.run s.spurious (m.cellAt s.width s.offset)).2.value) := by
  rw [view, onCell_accepted h]
  rfl

/-- **`view_frame`** -- whatever a step does, it does to the bytes of its view. -/
theorem view_frame (inBounds : m.InBounds s.width s.offset) :
    m.SameOutside s.width s.offset (m.view s).2 := by
  by_cases h : s.checked = true → Refusal.of? s.width (m.addressOf s.offset) = none
  · rw [view_accepted h]
    exact setValueAt_sameOutside inBounds _
  · obtain ⟨checked, hrefused⟩ := Classical.not_imp.mp h
    obtain ⟨refusal, hrefusal⟩ := Option.ne_none_iff_exists'.mp hrefused
    rw [view_refused checked hrefusal]
    exact .refl m s.width s.offset

/-- An address in the memory is refused if it is that of a word and no multiple of eight. -/
theorem Placed.refusal_of_crooked (placed : m.Placed) {offset : Nat}
    (h : m.InBounds .word offset) (crooked : (m.addressOf offset).toNat % 8 ≠ 0) :
    Refusal.of? .word (m.addressOf offset) = some (.misaligned (m.addressOf offset) 8) := by
  rw [Refusal.of?, if_neg (placed.addressOf_ne_zero h)]
  exact if_pos crooked

/-- Any other address in the memory is accepted. -/
theorem Placed.refusal_of_straight (placed : m.Placed) {offset : Nat} (h : m.InBounds w offset)
    (straight : w = .word → (m.addressOf offset).toNat % 8 = 0) :
    Refusal.of? w (m.addressOf offset) = none := by
  refine Refusal.of?_eq_none_iff.mpr ⟨placed.addressOf_ne_zero h, ?_⟩
  cases w with
  | byte => exact Nat.mod_one _
  | word => exact straight rfl

/-- **`view_asCell`** -- a legal step is one of a cell. -/
theorem view_asCell (placed : m.Placed) (legal : s.Legal m) :
    StepAsCell m s (m.view s).1 (m.view s).2 := by
  have here := placed.toNat_addressOf legal.inBounds
  by_cases crooked : s.width = .word ∧ (m.addressOf s.offset).toNat % 8 ≠ 0
  · obtain ⟨wide, crooked⟩ := crooked
    have hchecked : s.checked = true := by
      cases hcase : s.checked with
      | true => rfl
      | false =>
          have haligned := legal.aligned hcase
          rw [wide, ← here] at haligned
          exact absurd haligned crooked
    have hrefusal :
        Refusal.of? s.width (m.addressOf s.offset) = some (.misaligned (m.addressOf s.offset) 8) := by
      have hinBounds := legal.inBounds
      rw [wide] at hinBounds ⊢
      exact placed.refusal_of_crooked hinBounds crooked
    rw [view_refused hchecked hrefusal]
    exact .refused here wide crooked
  · have straight : s.width = .word → (m.addressOf s.offset).toNat % 8 = 0 := by
      intro wide
      exact Decidable.not_not.mp fun h => crooked ⟨wide, h⟩
    have hrefusal := placed.refusal_of_straight legal.inBounds straight
    rw [view_accepted fun _ => hrefusal]
    refine .ran here straight ?_ (setValueAt_sameOutside legal.inBounds _)
    intro cell hvalue
    -- The cell in the memory and the one elsewhere hold the same value.
    have hcell : m.cellAt s.width s.offset = ⟨m.addressOf s.offset, cell.value⟩ := by
      rw [cellAt, Cell.mk.injEq]
      refine ⟨rfl, BitVec.eq_of_toNat_eq ?_⟩
      rw [toNat_valueAt legal.inBounds, hvalue]
    have hrun := s.call.run_placeless s.spurious (m.addressOf s.offset) cell.address cell.value
    dsimp only at hrun
    rw [hcell, hrun]
    exact ⟨rfl, numberAt_setValueAt legal.inBounds _⟩

/-- A step leaves the memory where it is and as long as it is. -/
theorem StepAsCell.size (h : StepAsCell m s outcome after) :
    after.base = m.base ∧ after.bytes.length = m.bytes.length := by
  cases h with
  | refused => exact ⟨rfl, rfl⟩
  | ran _ _ _ frame => exact ⟨frame.base, frame.length⟩

theorem StepAsCell.placed (h : StepAsCell m s outcome after) (placed : m.Placed) :
    after.Placed := by
  obtain ⟨hbase, hlength⟩ := h.size
  constructor
  · rw [hbase]
    exact placed.base_ne_zero
  · rw [hbase, hlength]
    exact placed.fits

theorem StepAsCell.inBounds {s' : ViewStep} (h : StepAsCell m s outcome after)
    (inBounds : m.InBounds s'.width s'.offset) : after.InBounds s'.width s'.offset := by
  rw [InBounds, h.size.2]
  exact inBounds

theorem StepAsCell.legal {s' : ViewStep} (h : StepAsCell m s outcome after) (legal : s'.Legal m) :
    s'.Legal after := by
  refine ⟨h.inBounds legal.inBounds, ?_⟩
  rw [h.size.1]
  exact legal.aligned

/-- **`StepAsCell.unique`** -- a step has one outcome, and leaves one memory. -/
theorem StepAsCell.unique (inBounds : m.InBounds s.width s.offset)
    (h : StepAsCell m s outcome after) (h' : StepAsCell m s outcome' after') :
    outcome = outcome' ∧ after = after' := by
  cases h with
  | refused here wide crooked =>
      cases h' with
      | refused here' =>
          rw [BitVec.eq_of_toNat_eq (here.trans here'.symm)]
          exact ⟨rfl, rfl⟩
      | ran here' straight =>
          have hstraight := straight wide
          rw [here', ← here] at hstraight
          exact absurd hstraight crooked
  | ran here straight alike frame =>
      cases h' with
      | refused here' wide crooked =>
          have hstraight := straight wide
          rw [here, ← here'] at hstraight
          exact absurd hstraight crooked
      | ran here' straight' alike' frame' =>
          -- The memory holds a value, so there is a cell to compare with.
          have hvalue := toNat_valueAt inBounds
          obtain ⟨hreply, hnumber⟩ := alike ⟨0, m.valueAt s.width s.offset⟩ hvalue
          obtain ⟨hreply', hnumber'⟩ := alike' ⟨0, m.valueAt s.width s.offset⟩ hvalue
          have hafter := eq_of_numberAt (frame'.inBounds_iff.mpr inBounds)
            (frame'.symm.trans frame) (hnumber.trans hnumber'.symm)
          rw [hreply, hreply', hafter, BitVec.eq_of_toNat_eq (here.trans here'.symm)]
          exact ⟨rfl, rfl⟩

/-- A cell does not know whether its view was checked. -/
theorem StepAsCell.asChecked (h : StepAsCell m s outcome after) :
    StepAsCell m s.asChecked outcome after := by
  cases h with
  | refused here wide crooked => exact .refused here wide crooked
  | ran here straight alike frame => exact .ran here straight alike frame

/-! ## Whole runs -/

theorem viewAll_runAsCells (placed : m.Placed) (legal : ∀ s ∈ steps, s.Legal m) :
    RunAsCells m steps (m.viewAll steps).1 (m.viewAll steps).2 := by
  induction steps generalizing m with
  | nil => exact .done m
  | cons s steps ih =>
      obtain ⟨hfirst, hlater⟩ := List.forall_mem_cons.mp legal
      have hstep := view_asCell placed hfirst
      exact .step hstep (ih (hstep.placed placed) fun s' hs' => hstep.legal (hlater s' hs'))

theorem RunAsCells.unique (inBounds : ∀ s ∈ steps, m.InBounds s.width s.offset)
    (h : RunAsCells m steps outcomes last) (h' : RunAsCells m steps outcomes' last') :
    outcomes = outcomes' ∧ last = last' := by
  induction h generalizing outcomes' last' with
  | done m =>
      cases h'
      exact ⟨rfl, rfl⟩
  | step first later ih =>
      cases h' with
      | step first' later' =>
          obtain ⟨hfirst, hlater⟩ := List.forall_mem_cons.mp inBounds
          obtain ⟨rfl, rfl⟩ := first.unique hfirst first'
          obtain ⟨rfl, rfl⟩ := ih (fun s' hs' => first.inBounds (hlater s' hs')) later'
          exact ⟨rfl, rfl⟩

theorem RunAsCells.asChecked (h : RunAsCells m steps outcomes last) :
    RunAsCells m (steps.map ViewStep.asChecked) outcomes last := by
  induction h with
  | done m => exact .done m
  | step first later ih => exact .step first.asChecked ih

/-- **`viewAll_asCells`** -- in a memory of any length that begins at no null address, whatever
widths and offsets a host views and whatever it calls there: the outcomes and the memory are told
step by step in terms of single cells; no other outcomes and no other memory are; and which of the
aligned views are checked makes no difference. -/
theorem viewAll_asCells (m : Memory) (steps : List ViewStep) (placed : m.Placed)
    (legal : ∀ s ∈ steps, s.Legal m) :
    let run := m.viewAll steps
    RunAsCells m steps run.1 run.2 ∧
      (∀ outcomes last, RunAsCells m steps outcomes last → outcomes = run.1 ∧ last = run.2) ∧
      ∀ steps' : List ViewStep, (∀ s ∈ steps', s.Legal m) →
        steps'.map ViewStep.asChecked = steps.map ViewStep.asChecked →
          m.viewAll steps' = run := by
  intro run
  have hrun : RunAsCells m steps run.1 run.2 := viewAll_runAsCells placed legal
  refine ⟨hrun, ?_, ?_⟩
  · intro outcomes last hother
    exact hother.unique (fun s hs => (legal s hs).inBounds) hrun
  · intro steps' legal' hsame
    have hrun' := (viewAll_runAsCells placed legal').asChecked
    rw [hsame] at hrun'
    have inBounds : ∀ s ∈ steps.map ViewStep.asChecked, m.InBounds s.width s.offset := by
      intro s hs
      obtain ⟨s, hmem, rfl⟩ := List.mem_map.mp hs
      exact (legal s hmem).inBounds
    obtain ⟨houtcomes, hlast⟩ := hrun'.unique inBounds hrun.asChecked
    exact Prod.ext houtcomes hlast

/-- A byte and two words that overlap: the byte wraps around in place, the crooked word is refused,
and the straight one carries into the byte. -/
theorem viewAll_asCells_overlapping :
    let m : Memory := ⟨65536, List.replicate 16 255⟩
    let steps : List ViewStep :=
      [⟨.byte, 7, false, .fetchAdd 1, false⟩, ⟨.word, 1, true, .load .relaxed, false⟩,
        ⟨.word, 0, false, .fetchAdd 1, false⟩]
    (m.Placed ∧ ∀ s ∈ steps, s.Legal m) ∧
      RunAsCells m steps (m.viewAll steps).1 (m.viewAll steps).2 ∧
      (m.viewAll steps).2.numberAt .word 0 = 2 ^ 56 := by
  intro m steps
  have placed : m.Placed := ⟨by decide, by decide⟩
  have legal : ∀ s ∈ steps, s.Legal m := by
    intro s hs
    rcases (by simpa [steps] using hs) with rfl | rfl | rfl
    · exact ⟨by decide, by decide⟩
    · exact ⟨by decide, nofun⟩
    · exact ⟨by decide, by decide⟩
  exact ⟨⟨placed, legal⟩, (viewAll_asCells m steps placed legal).1, by decide⟩

end Memory

/-! ## Scripts -/

/-- What a call of a host script does to the memory is such a step. -/
theorem HostSession.step_memory (s : HostSession) {step : HostStep}
    (inBounds : s.memory.InBounds step.width step.offset)
    {call : Call (Operand step.width) step.width}
    (reads : Step.ofTerm step.width step.action = .call call) :
    (s.step step).2.memory =
      (s.memory.view ⟨step.width, step.offset, step.checked,
        call.map (s.registers.get step.width).value, false⟩).2 := by
  rw [HostSession.step, if_pos inBounds, reads, Memory.view]
  simp only [Memory.onCell]
  cases (if step.checked = true then s.memory.tryCellAt step.width step.offset
    else .ok (s.memory.cellAt step.width step.offset)) with
  | error refusal => rfl
  | ok cell => rfl

end SharedCells
