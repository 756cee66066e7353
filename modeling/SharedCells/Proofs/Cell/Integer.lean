/-
# SharedCells.Proofs.Cell.Integer -- a cell is one integer

Forty entry points in three layers work on a cell, and for all of them a cell is an integer below
two to its width. `Request` lists the eight things that can be asked of an integer, and `Answers`
says how it answers each: this is arithmetic on numbers, with no cell, no order and no layer in it.
`Call.request` says what every entry point asks.

A weak compare-and-swap may fail although it finds what it expects. Whether it does is the
platform's choice and comes with the call; nothing else looks at that choice.

* `Call.run_answers` : one call of any entry point answers as the integer does.
* `Answers.unique`, `IntegerRun.unique` : an integer has one answer, and so one run.
* `Cell.runs_as_integer` : every run of a cell, however the cell was made, is the integer's run.
-/

import Mathlib.Algebra.Group.Int.Defs
import Mathlib.Algebra.Group.Nat.Defs
import SharedCells.Call

namespace SharedCells

variable {w : Width}

/-! ## One integer -/

/-- **`SwapForm`** -- how a compare-and-swap hands back the value it found: as its result, or in
`expected`. -/
inductive SwapForm where
  | result
  | inOut
  deriving DecidableEq

/-- **`Request`** -- what can be asked of an integer. -/
inductive Request where
  | look
  | put (value : Nat)
  | add (amount : Nat)
  | subtract (amount : Nat)
  | swap (form : SwapForm) (strength : Strength) (expected new : Nat)
  /-- The integer written for a developer. -/
  | display (format : DebugFormat)
  /-- The place where the integer is kept. -/
  | locate
  /-- Nothing of the integer itself: fences. -/
  | order

/-- **`Response`** -- what an integer answers. -/
inductive Response where
  | nothing
  | number (n : Nat)
  /-- Did the swap happen, and the number that the form hands back. -/
  | swapped (form : SwapForm) (done : Bool) (found : Nat)
  | text (t : String)
  | place (a : Address)

/-- **`Answers w here spoiled m`** -- how the integer `m`, kept modulo two to the width at an
address, answers a request, and what it is afterwards. -/
inductive Answers (w : Width) (here : Address) (spoiled : Bool) (m : Nat) :
    Request → Response → Nat → Prop
  | look : Answers w here spoiled m .look (.number m) m
  | put (value : Nat) : Answers w here spoiled m (.put value) .nothing value
  | add (amount : Nat) :
      Answers w here spoiled m (.add amount) (.number m) ((m + amount) % 2 ^ w.bits)
  | subtract (amount : Nat) :
      Answers w here spoiled m (.subtract amount) (.number m)
        (((m : Int) - amount) % 2 ^ w.bits).toNat
  /-- A swap that expects the integer happens, unless it is weak and spoiled. -/
  | swaps {form : SwapForm} {strength : Strength} {expected new : Nat} (equal : expected = m)
      (unspoiled : ¬ (strength = .weak ∧ spoiled = true)) :
      Answers w here spoiled m (.swap form strength expected new) (.swapped form true m) new
  /-- A swap that expects anything else fails. -/
  | differs {form : SwapForm} {strength : Strength} {expected new : Nat} (other : expected ≠ m) :
      Answers w here spoiled m (.swap form strength expected new) (.swapped form false m) m
  | spoils {form : SwapForm} {expected new : Nat} (spoil : spoiled = true) :
      Answers w here spoiled m (.swap form .weak expected new) (.swapped form false m) m
  | display (format : DebugFormat) :
      Answers w here spoiled m (.display format)
        (.text (String.ofList (format.tuple "AtomicCell" [format.number m]))) m
  | locate : Answers w here spoiled m .locate (.place here) m
  | order : Answers w here spoiled m .order .nothing m

/-- **`IntegerRun`** -- requests one after another, each with whether the platform spoils it. -/
inductive IntegerRun (w : Width) (here : Address) :
    Nat → List (Request × Bool) → List Response → Nat → Prop
  | done (m : Nat) : IntegerRun w here m [] [] m
  | step {m m' last : Nat} {request : Request} {response : Response} {spoiled : Bool}
      {requests : List (Request × Bool)} {responses : List Response}
      (answers : Answers w here spoiled m request response m')
      (later : IntegerRun w here m' requests responses last) :
      IntegerRun w here m ((request, spoiled) :: requests) (response :: responses) last

variable {here : Address} {spoiled : Bool} {m : Nat}

/-- What becomes of a swap, in one formula. -/
theorem Answers.of_swap (form : SwapForm) (strength : Strength) (expected new : Nat) :
    Answers w here spoiled m (.swap form strength expected new)
      (.swapped form (decide (expected = m ∧ ¬ (strength = .weak ∧ spoiled = true))) m)
      (if expected = m ∧ ¬ (strength = .weak ∧ spoiled = true) then new else m) := by
  by_cases equal : expected = m
  · by_cases spoil : strength = .weak ∧ spoiled = true
    · have hfails : ¬ (expected = m ∧ ¬ (strength = .weak ∧ spoiled = true)) := fun h => h.2 spoil
      rw [if_neg hfails, decide_eq_false hfails, spoil.1]
      exact .spoils spoil.2
    · have hdone : expected = m ∧ ¬ (strength = .weak ∧ spoiled = true) := ⟨equal, spoil⟩
      rw [if_pos hdone, decide_eq_true hdone]
      exact .swaps equal spoil
  · have hfails : ¬ (expected = m ∧ ¬ (strength = .weak ∧ spoiled = true)) := fun h => equal h.1
    rw [if_neg hfails, decide_eq_false hfails]
    exact .differs equal

/-- An integer has one answer to a request. -/
theorem Answers.unique {request : Request} {response response' : Response} {after after' : Nat}
    (h : Answers w here spoiled m request response after)
    (h' : Answers w here spoiled m request response' after') :
    response = response' ∧ after = after' := by
  cases h with
  | swaps equal unspoiled =>
      cases h' with
      | swaps => exact ⟨rfl, rfl⟩
      | differs other => exact absurd equal other
      | spoils spoil => exact absurd ⟨rfl, spoil⟩ unspoiled
  | differs other =>
      cases h' with
      | swaps equal => exact absurd equal other
      | differs | spoils => exact ⟨rfl, rfl⟩
  | spoils spoil =>
      cases h' with
      | swaps equal unspoiled => exact absurd ⟨rfl, spoil⟩ unspoiled
      | differs | spoils => exact ⟨rfl, rfl⟩
  | look | put | add | subtract | display | locate | order =>
      cases h'
      exact ⟨rfl, rfl⟩

theorem IntegerRun.unique {requests : List (Request × Bool)} {responses responses' : List Response}
    {last last' : Nat} (h : IntegerRun w here m requests responses last)
    (h' : IntegerRun w here m requests responses' last') :
    responses = responses' ∧ last = last' := by
  induction h generalizing responses' last' with
  | done m =>
      cases h'
      exact ⟨rfl, rfl⟩
  | step answers later ih =>
      cases h' with
      | step answers' later' =>
          obtain ⟨rfl, rfl⟩ := answers.unique answers'
          obtain ⟨rfl, rfl⟩ := ih later'
          exact ⟨rfl, rfl⟩

/-! ## What the entry points ask -/

/-- What a word method asks. -/
def WordMethod.request : WordMethod (Value .word) → Request
  | loadRelaxed | loadAcquire | loadSeqCst => .look
  | storeRelaxed v => .put v.toNat
  | trySwapRelaxed e n | trySwapAcqRel e n | trySwapSeqCst e n =>
    .swap .inOut .weak e.toNat n.toNat

/-- What an exported word entry point asks. -/
def WordExport.request : WordExport (Value .word) → Request
  | method m => m.request
  | fetchAdd n => .add n.toNat
  | fetchSub n => .subtract n.toNat

/-- What a byte method asks. -/
def ByteMethod.request : ByteMethod (Value .byte) → Request
  | loadRelaxed | loadAcquire => .look
  | storeRelaxed v | storeRelease v => .put v.toNat
  | trySwapAcquire e n => .swap .inOut .strong e.toNat n.toNat

/-- **`Call.request`** -- what an entry point asks, in whatever layer it is. -/
def Call.request : Call (Value w) w → Request
  | load _ | read => .look
  | store v _ | write v => .put v.toNat
  | compareExchange s current new _ => .swap .result s current.toNat new.toNat
  | trySwap s expected new _ => .swap .inOut s expected.toNat new.toNat
  | fetchAdd n => .add n.toNat
  | fetchSub n => .subtract n.toNat
  | debug format => .display format
  | address => .locate
  | fence _ | wordFence _ => .order
  | wordMethod m => m.request
  | wordExport m => m.request
  | byteMethod m | byteExport m => m.request

/-- **`Reply.response`** -- a reply read as an answer. -/
def Reply.response : Reply w → Response
  | done => .nothing
  | value v => .number v.toNat
  | exchange (.swapped previous) => .swapped .result true previous.toNat
  | exchange (.refused actual) => .swapped .result false actual.toNat
  | swap outcome => .swapped .inOut outcome.done outcome.expected.toNat
  | text t => .text t
  | address a => .place a

/-! ## One call -/

/-- **`AnswersAs c spoiled request r`** -- what came of a call is the integer's answer, and the cell
has stayed where it was. -/
def AnswersAs (c : Cell w) (spoiled : Bool) (request : Request) (r : Reply w × Cell w) : Prop :=
  Answers w c.address spoiled c.value.toNat request r.1.response r.2.value.toNat ∧
    r.2.address = c.address

theorem Access.exchanges_iff (strength : Strength) (spurious : Bool) (present current : Value w) :
    Access.exchanges strength spurious present current = true ↔
      current.toNat = present.toNat ∧ ¬ (strength = .weak ∧ spurious = true) := by
  have hvalue : present = current ↔ current.toNat = present.toNat :=
    ⟨fun h => by rw [h], fun h => (BitVec.eq_of_toNat_eq h).symm⟩
  simp only [Access.exchanges, Bool.and_eq_true, beq_iff_eq, hvalue, Bool.not_eq_true',
    ← Bool.not_eq_true]

namespace Cell

variable (c : Cell w)

theorem compareExchange_answers (strength : Strength) (current new : Value w) (order : SwapOrder)
    (spurious : Bool) :
    AnswersAs c spurious (.swap .result strength current.toNat new.toNat)
      (.exchange (c.compareExchange strength current new order spurious).1,
        (c.compareExchange strength current new order spurious).2) := by
  have hanswer : Answers w c.address spurious c.value.toNat
      (.swap .result strength current.toNat new.toNat) _ _ :=
    Answers.of_swap .result strength current.toNat new.toNat
  rw [compareExchange_eq]
  by_cases h : Access.exchanges strength spurious c.value current = true
  · rw [if_pos h]
    have hdone := (Access.exchanges_iff ..).mp h
    rw [if_pos hdone, decide_eq_true hdone] at hanswer
    exact ⟨hanswer, rfl⟩
  · rw [if_neg h]
    have hfails := fun hdone => h ((Access.exchanges_iff ..).mpr hdone)
    rw [if_neg hfails, decide_eq_false hfails] at hanswer
    exact ⟨hanswer, rfl⟩

/-- Only a weak swap depends on the platform, so the answer is the same for any choice where the
swap is strong. -/
theorem trySwap_answers (strength : Strength) (expected new : Value w) (order : SwapOrder)
    {spurious : Bool} (choice : strength = .weak → spoiled = spurious) :
    AnswersAs c spoiled (.swap .inOut strength expected.toNat new.toNat)
      (Reply.ofSwap (c.trySwap strength expected new order spurious)) := by
  have hchoice : (strength = .weak ∧ spoiled = true) ↔ (strength = .weak ∧ spurious = true) := by
    constructor
    · rintro ⟨hweak, hspoiled⟩
      exact ⟨hweak, choice hweak ▸ hspoiled⟩
    · rintro ⟨hweak, hspurious⟩
      exact ⟨hweak, (choice hweak).trans hspurious⟩
  have hanswer : Answers w c.address spoiled c.value.toNat
      (.swap .inOut strength expected.toNat new.toNat) _ _ :=
    Answers.of_swap .inOut strength expected.toNat new.toNat
  rw [trySwap_eq]
  by_cases h : Access.exchanges strength spurious c.value expected = true
  · rw [if_pos h]
    have hdone := (Access.exchanges_iff ..).mp h
    rw [← hchoice] at hdone
    rw [if_pos hdone, decide_eq_true hdone] at hanswer
    -- A success leaves `expected` alone, and it holds the value found.
    rw [← hdone.1] at hanswer
    exact ⟨hdone.1 ▸ hanswer, rfl⟩
  · rw [if_neg h]
    have hfails : ¬ (expected.toNat = c.value.toNat ∧ ¬ (strength = .weak ∧ spoiled = true)) := by
      intro hdone
      rw [hchoice] at hdone
      exact h ((Access.exchanges_iff ..).mpr hdone)
    rw [if_neg hfails, decide_eq_false hfails] at hanswer
    exact ⟨hanswer, rfl⟩

theorem fetchAdd_answers (amount : Value w) :
    AnswersAs c spoiled (.add amount.toNat) (Reply.ofFetch (c.fetchAdd amount)) := by
  refine ⟨?_, rfl⟩
  show Answers w c.address spoiled c.value.toNat _ _ (c.value + amount).toNat
  rw [BitVec.toNat_add]
  exact .add amount.toNat

theorem fetchSub_answers (amount : Value w) :
    AnswersAs c spoiled (.subtract amount.toNat) (Reply.ofFetch (c.fetchSub amount)) := by
  refine ⟨?_, rfl⟩
  have hsub : (c.value - amount).toNat =
      (((c.value.toNat : Int) - amount.toNat) % 2 ^ w.bits).toNat := by
    have hlt : amount.toNat < 2 ^ w.bits := amount.isLt
    have hsum : ((2 ^ w.bits - amount.toNat + c.value.toNat : Nat) : Int) =
        (c.value.toNat : Int) - amount.toNat + (2 ^ w.bits : Nat) := by omega
    have hmod : (((2 ^ w.bits - amount.toNat + c.value.toNat) % 2 ^ w.bits : Nat) : Int) =
        ((c.value.toNat : Int) - amount.toNat) % (2 ^ w.bits : Nat) := by
      rw [Int.natCast_emod, hsum, Int.add_emod_right]
    rw [BitVec.toNat_sub, ← Int.toNat_natCast (_ % _), hmod, Int.natCast_pow]
    rfl
  show Answers w c.address spoiled c.value.toNat _ _ (c.value - amount).toNat
  rw [hsub]
  exact .subtract amount.toNat

end Cell

theorem WordMethod.run_answers (spurious : Bool) (c : WordCell) (m : WordMethod (Value .word)) :
    AnswersAs c spurious m.request (m.run spurious c) := by
  cases m with
  | loadRelaxed | loadAcquire | loadSeqCst => exact ⟨.look, rfl⟩
  | storeRelaxed v => exact ⟨.put v.toNat, rfl⟩
  | trySwapRelaxed e n => exact c.trySwap_answers .weak e n .relaxed fun _ => rfl
  | trySwapAcqRel e n => exact c.trySwap_answers .weak e n .acqRel fun _ => rfl
  | trySwapSeqCst e n => exact c.trySwap_answers .weak e n .seqCst fun _ => rfl

theorem WordExport.run_answers (spurious : Bool) (c : WordCell) (m : WordExport (Value .word)) :
    AnswersAs c spurious m.request (m.run spurious c) := by
  cases m with
  | method m => exact m.run_answers spurious c
  | fetchAdd n => exact c.fetchAdd_answers n
  | fetchSub n => exact c.fetchSub_answers n

theorem ByteMethod.run_answers (spoiled : Bool) (c : ByteCell) (m : ByteMethod (Value .byte)) :
    AnswersAs c spoiled m.request (m.run c) := by
  cases m with
  | loadRelaxed | loadAcquire => exact ⟨.look, rfl⟩
  | storeRelaxed v | storeRelease v => exact ⟨.put v.toNat, rfl⟩
  | trySwapAcquire e n => exact c.trySwap_answers .strong e n .acquire nofun

/-- **`Call.run_answers`** -- a call of any entry point answers as the integer does. -/
theorem Call.run_answers (spurious : Bool) (c : Cell w) (call : Call (Value w) w) :
    AnswersAs c spurious call.request (call.run spurious c) := by
  cases call with
  | load | read => exact ⟨.look, rfl⟩
  | store v | write v => exact ⟨.put v.toNat, rfl⟩
  | compareExchange s current new o => exact c.compareExchange_answers s current new o spurious
  | trySwap s expected new o => exact c.trySwap_answers s expected new o fun _ => rfl
  | fetchAdd n => exact c.fetchAdd_answers n
  | fetchSub n => exact c.fetchSub_answers n
  | debug format => exact ⟨.display format, rfl⟩
  | address => exact ⟨.locate, rfl⟩
  | fence | wordFence => exact ⟨.order, rfl⟩
  | wordMethod m => exact m.run_answers spurious c
  | wordExport m => exact m.run_answers spurious c
  | byteMethod m | byteExport m => exact m.run_answers spurious c

/-! ## Whole runs -/

namespace Cell

/-- **`runAll`** -- calls one after another, each with whether the platform spoils it. -/
def runAll (c : Cell w) : List (Call (Value w) w × Bool) → List (Reply w) × Cell w
  | [] => ([], c)
  | (call, spurious) :: calls =>
    let (reply, after) := call.run spurious c
    let (replies, last) := after.runAll calls
    (reply :: replies, last)

/-- The requests of calls, spoiled as they are. -/
def requests (calls : List (Call (Value w) w × Bool)) : List (Request × Bool) :=
  calls.map fun (call, spurious) => (call.request, spurious)

theorem runAll_integerRun (c : Cell w) (calls : List (Call (Value w) w × Bool)) :
    IntegerRun w c.address c.value.toNat (requests calls)
        ((c.runAll calls).1.map Reply.response) (c.runAll calls).2.value.toNat ∧
      (c.runAll calls).2.address = c.address := by
  induction calls generalizing c with
  | nil => exact ⟨.done _, rfl⟩
  | cons first calls ih =>
      obtain ⟨call, spurious⟩ := first
      obtain ⟨hanswer, hplace⟩ := call.run_answers spurious c
      obtain ⟨hlater, hlast⟩ := ih (call.run spurious c).2
      rw [hplace] at hlater hlast
      exact ⟨.step hanswer hlater, hlast⟩

end Cell

/-- The integer that a cell made in this way starts with. -/
def Origin.first (origin : Origin) (initial : Nat) : Nat :=
  match origin with
  | .new | .withValue | .conversion => initial
  | .zero => 0

namespace Cell

theorem make_value (origin : Origin) (address : Address) (initial : Value w) :
    (make origin address initial).value.toNat = origin.first initial.toNat := by
  cases origin with
  | new | withValue | conversion => rfl
  | zero => exact BitVec.toNat_zero

theorem make_address (origin : Origin) (address : Address) (initial : Value w) :
    (make origin address initial).address = address := by
  cases origin <;> rfl

/-- **`runs_as_integer`** -- whichever way a cell is made, whatever is called on it and whatever
weak attempts the platform spoils: what comes back, and what the cell holds in the end, is the run
of one integer below two to the width, and that integer has no other run. -/
theorem runs_as_integer (origin : Origin) (address : Address) (initial : Value w)
    (calls : List (Call (Value w) w × Bool)) :
    let run := (make origin address initial).runAll calls
    IntegerRun w address (origin.first initial.toNat) (requests calls)
        (run.1.map Reply.response) run.2.value.toNat ∧
      (∀ responses last,
        IntegerRun w address (origin.first initial.toNat) (requests calls) responses last →
          responses = run.1.map Reply.response ∧ last = run.2.value.toNat) ∧
      run.2.value.toNat < 2 ^ w.bits ∧ run.2.address = address := by
  intro run
  obtain ⟨hrun, hplace⟩ := (make origin address initial).runAll_integerRun calls
  rw [make_value, make_address] at hrun
  rw [make_address] at hplace
  refine ⟨hrun, ?_, run.2.value.isLt, hplace⟩
  intro responses last hother
  exact hother.unique hrun

/-- A byte goes below zero and comes back, and a weak swap that is spoiled hands back what it
expected. -/
example :
    ((make .zero 1 (7 : Value .byte)).runAll
      [(.fetchSub 1, false), (.trySwap .weak 255 3 .acqRel, true),
        (.byteExport (.trySwapAcquire 255 3), true), (.read, false)]).1.map Reply.response =
      [.number 0, .swapped .inOut false 255, .swapped .inOut true 255, .number 3] := by
  rfl

end Cell

end SharedCells
