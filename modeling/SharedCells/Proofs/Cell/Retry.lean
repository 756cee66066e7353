/-
# SharedCells.Proofs.Cell.Retry -- a weak compare-and-swap, retried, is a strong one

A weak compare-and-swap may fail although it finds what it expects, and so its callers try again.
`Call.Counterpart` pairs each weak entry point with the strong ones that ask for the same exchange:
in both forms, at both widths, and for the named and the exported entry points of fixed order.

An attempt of the weak one has two outcomes. Either the platform spoils it; then the cell, what is
expected and so the next attempt are what they were. Or it is the strong call, answer and cell.
Everything else follows from that by induction on the attempts that the platform would spoil.

A program may look at every reply before it decides what to do next, and work on any number of
cells. It sees no difference: of a retried call it is handed the last reply.

* `Call.Counterpart.attempt` : one attempt.
* `Call.Counterpart.attempts_eq` : all of them, spoiled ones first and then the strong call.
* `Call.retried_as_strong` : the calls, their number, and whole programs.
-/

import Mathlib.Logic.Function.Basic
import SharedCells.Call

namespace SharedCells

variable {w : Width}

/-! ## Weak calls and their strong counterparts -/

/-- The weak compare-and-swap that a word method makes: what it expects, the new value, its
order. -/
def WordMethod.swap? {α : Type} : WordMethod α → Option (α × α × SwapOrder)
  | trySwapRelaxed e n => some (e, n, .relaxed)
  | trySwapAcqRel e n => some (e, n, .acqRel)
  | trySwapSeqCst e n => some (e, n, .seqCst)
  | _ => none

namespace Call

/-- **`Counterpart weak strong`** -- the two ask for the same exchange, in the same form and with
the same order, and only the first may fail spuriously. -/
inductive Counterpart {α : Type} : {w : Width} → Call α w → Call α w → Prop
  | compareExchange {w : Width} (current new : α) (order : SwapOrder) :
      Counterpart (w := w) (.compareExchange .weak current new order)
        (.compareExchange .strong current new order)
  | trySwap {w : Width} (expected new : α) (order : SwapOrder) :
      Counterpart (w := w) (.trySwap .weak expected new order)
        (.trySwap .strong expected new order)
  | wordMethod {m : WordMethod α} {expected new : α} {order : SwapOrder}
      (swaps : m.swap? = some (expected, new, order)) :
      Counterpart (.wordMethod m) (.trySwap .strong expected new order)
  | wordExport {m : WordMethod α} {expected new : α} {order : SwapOrder}
      (swaps : m.swap? = some (expected, new, order)) :
      Counterpart (.wordExport (.method m)) (.trySwap .strong expected new order)
  | byteMethod (expected new : α) :
      Counterpart (.trySwap .weak expected new .acquire)
        (.byteMethod (.trySwapAcquire expected new))
  | byteExport (expected new : α) :
      Counterpart (.trySwap .weak expected new .acquire)
        (.byteExport (.trySwapAcquire expected new))

/-- Every entry point that may fail spuriously has a strong counterpart. -/
theorem exists_counterpart {α : Type} {weak : Call α w} {e : α} (h : weak.expected? = some e) :
    ∃ strong, weak.Counterpart strong := by
  cases weak with
  | compareExchange strength current new order =>
      cases strength with
      | weak => exact ⟨_, .compareExchange current new order⟩
      | strong => cases h
  | trySwap strength expected new order =>
      cases strength with
      | weak => exact ⟨_, .trySwap expected new order⟩
      | strong => cases h
  | wordMethod m =>
      cases m with
      | trySwapRelaxed | trySwapAcqRel | trySwapSeqCst => exact ⟨_, .wordMethod rfl⟩
      | loadRelaxed | loadAcquire | loadSeqCst | storeRelaxed => cases h
  | wordExport m =>
      cases m with
      | method m =>
          cases m with
          | trySwapRelaxed | trySwapAcqRel | trySwapSeqCst => exact ⟨_, .wordExport rfl⟩
          | loadRelaxed | loadAcquire | loadSeqCst | storeRelaxed => cases h
      | fetchAdd | fetchSub => cases h
  | load | store | fetchAdd | fetchSub | debug | address | read | write | fence | wordFence
    | byteMethod | byteExport => cases h

/-- The counterpart never fails spuriously. -/
theorem Counterpart.expected?_strong {α : Type} {weak strong : Call α w}
    (h : weak.Counterpart strong) : strong.expected? = none := by
  cases h <;> rfl

end Call

/-! ## One attempt -/

namespace Cell

variable (c : Cell w) (expected new : Value w) (order : SwapOrder) (spurious : Bool)

theorem compareExchange_weak :
    c.compareExchange .weak expected new order spurious =
      if c.value = expected ∧ spurious = false then (.swapped c.value, ⟨c.address, new⟩)
      else (.refused c.value, c) := by
  rw [compareExchange_eq, Access.exchanges_weak]
  simp only [Bool.and_eq_true, beq_iff_eq, Bool.not_eq_true']

/-- A strong swap does not ask the platform. -/
theorem compareExchange_strong :
    c.compareExchange .strong expected new order spurious =
      if c.value = expected then (.swapped c.value, ⟨c.address, new⟩)
      else (.refused c.value, c) := by
  rw [compareExchange_eq, Access.exchanges_strong]
  simp only [beq_iff_eq]

theorem trySwap_weak :
    c.trySwap .weak expected new order spurious =
      if c.value = expected ∧ spurious = false then (⟨true, expected⟩, ⟨c.address, new⟩)
      else (⟨false, c.value⟩, c) := by
  unfold trySwap
  rw [compareExchange_weak]
  by_cases h : c.value = expected ∧ spurious = false
  · rw [if_pos h, if_pos h]
  · rw [if_neg h, if_neg h]

theorem trySwap_strong :
    c.trySwap .strong expected new order spurious =
      if c.value = expected then (⟨true, expected⟩, ⟨c.address, new⟩)
      else (⟨false, c.value⟩, c) := by
  unfold trySwap
  rw [compareExchange_strong]
  by_cases h : c.value = expected
  · rw [if_pos h, if_pos h]
  · rw [if_neg h, if_neg h]

end Cell

theorem WordMethod.run_of_swap? {m : WordMethod (Value .word)} {e n : Value .word}
    {order : SwapOrder} (h : m.swap? = some (e, n, order)) (spurious : Bool) (c : WordCell) :
    m.run spurious c = Reply.ofSwap (c.trySwap .weak e n order spurious) := by
  cases m with
  | trySwapRelaxed | trySwapAcqRel | trySwapSeqCst =>
      cases h
      rfl
  | loadRelaxed | loadAcquire | loadSeqCst | storeRelaxed => cases h

/-- A failed attempt that found what it expected is made again as it was. -/
theorem WordMethod.resume_of_swap? {m : WordMethod (Value .word)} {e n : Value .word}
    {order : SwapOrder} (h : m.swap? = some (e, n, order)) :
    m.resume (.swap ⟨false, e⟩) = m := by
  cases m with
  | trySwapRelaxed | trySwapAcqRel | trySwapSeqCst =>
      cases h
      rfl
  | loadRelaxed | loadAcquire | loadSeqCst | storeRelaxed => cases h

namespace Call

variable {weak strong : Call (Value w) w}

theorem expected?_of_wordMethod {m : WordMethod (Value .word)} {e n : Value .word}
    {order : SwapOrder} (h : m.swap? = some (e, n, order)) :
    (wordMethod m).expected? = some e ∧ (wordExport (.method m)).expected? = some e := by
  cases m with
  | trySwapRelaxed | trySwapAcqRel | trySwapSeqCst =>
      cases h
      exact ⟨rfl, rfl⟩
  | loadRelaxed | loadAcquire | loadSeqCst | storeRelaxed => cases h

/-- **`Attempt weak strong c spurious`** -- an attempt is spoiled and leaves everything as it was,
or it is the strong call. -/
inductive Attempt (weak strong : Call (Value w) w) (c : Cell w) (spurious : Bool) :
    Reply w × Cell w → Prop
  | spoiled {reply : Reply w} (spoil : spurious = true) (expects : weak.expected? = some c.value)
      (failed : weak.failedSpuriously reply = true) (again : weak.resume reply = weak) :
      Attempt weak strong c spurious (reply, c)
  | settled {r : Reply w × Cell w} (unspoiled : ¬ (spurious = true ∧ weak.expected? = some c.value))
      (same : ∀ any, strong.run any c = r) (final : weak.failedSpuriously r.1 = false) :
      Attempt weak strong c spurious r

/-- A call that found another value than the one expected did not fail spuriously. -/
theorem failedSpuriously_of_refusal {call : Call (Value w) w} {reply : Reply w}
    {expected found : Value w} (hexpects : call.expected? = some expected)
    (hrefusal : reply.refusal? = some found) :
    call.failedSpuriously reply = (expected == found) := by
  rw [failedSpuriously, hexpects, hrefusal]

theorem failedSpuriously_of_success {call : Call (Value w) w} {reply : Reply w}
    (hrefusal : reply.refusal? = none) : call.failedSpuriously reply = false := by
  unfold failedSpuriously
  rw [hrefusal]
  split
  case h_1 heq => exact absurd heq nofun
  case h_2 => rfl

/-- How an attempt goes in either form: `refused` is the reply of a failure, `happened` that of a
success. -/
theorem attempt_of_cases {c : Cell w} {spurious : Bool} (expected : Value w)
    (refused happened : Reply w) (after : Cell w) (hexpects : weak.expected? = some expected)
    (hrefused : refused.refusal? = some c.value) (hhappened : happened.refusal? = none)
    (hweak : weak.run spurious c =
      if c.value = expected ∧ spurious = false then (happened, after) else (refused, c))
    (hstrong : ∀ any, strong.run any c =
      if c.value = expected then (happened, after) else (refused, c))
    (hagain : c.value = expected → weak.resume refused = weak) :
    Attempt weak strong c spurious (weak.run spurious c) := by
  have hfailed := failedSpuriously_of_refusal hexpects hrefused
  rw [hweak]
  by_cases hvalue : c.value = expected
  · cases spurious with
    | true =>
        rw [if_neg (fun h => absurd h.2 (by decide))]
        refine .spoiled rfl (hvalue ▸ hexpects) ?_ (hagain hvalue)
        rw [hfailed, hvalue]
        exact beq_self_eq_true _
    | false =>
        rw [if_pos ⟨hvalue, rfl⟩]
        refine .settled (fun h => absurd h.1 (by decide)) (fun any => ?_)
          (failedSpuriously_of_success hhappened)
        rw [hstrong, if_pos hvalue]
  · rw [if_neg (fun h => hvalue h.1)]
    refine .settled ?_ (fun any => ?_) ?_
    · rintro ⟨-, hexpects'⟩
      exact hvalue (Option.some.inj (hexpects'.symm.trans hexpects))
    · rw [hstrong, if_neg hvalue]
    · rw [hfailed]
      exact beq_false_of_ne (Ne.symm hvalue)

/-- An attempt in in/out form. -/
theorem attempt_of_trySwap {c : Cell w} {spurious : Bool} {e n : Value w} {order : SwapOrder}
    (hweak : weak.run spurious c = Reply.ofSwap (c.trySwap .weak e n order spurious))
    (hstrong : ∀ any, ∃ asked,
      strong.run any c = Reply.ofSwap (c.trySwap .strong e n order asked))
    (hexpects : weak.expected? = some e) (hagain : weak.resume (.swap ⟨false, e⟩) = weak) :
    Attempt weak strong c spurious (weak.run spurious c) := by
  refine attempt_of_cases e (.swap ⟨false, c.value⟩) (.swap ⟨true, e⟩) ⟨c.address, n⟩ hexpects
    rfl rfl ?_ ?_ ?_
  · rw [hweak, Cell.trySwap_weak]
    split <;> rfl
  · intro any
    obtain ⟨asked, hasked⟩ := hstrong any
    rw [hasked, Cell.trySwap_strong]
    split <;> rfl
  · intro hvalue
    rw [hvalue]
    exact hagain

/-- **`attempt`** -- an attempt of a weak entry point, in whatever form and layer. -/
theorem Counterpart.attempt (h : Counterpart weak strong) (c : Cell w) (spurious : Bool) :
    Attempt weak strong c spurious (weak.run spurious c) := by
  cases h with
  | compareExchange current new order =>
      refine attempt_of_cases current (.exchange (.refused c.value))
        (.exchange (.swapped c.value)) ⟨c.address, new⟩ rfl rfl rfl ?_ ?_ (fun _ => rfl)
      · rw [run, Cell.compareExchange_weak]
        by_cases h : c.value = current ∧ spurious = false
        · rw [if_pos h, if_pos h]
        · rw [if_neg h, if_neg h]
      · intro any
        rw [run, Cell.compareExchange_strong]
        by_cases h : c.value = current
        · rw [if_pos h, if_pos h]
        · rw [if_neg h, if_neg h]
  | trySwap e n order => exact attempt_of_trySwap rfl (fun any => ⟨any, rfl⟩) rfl rfl
  | wordMethod swaps =>
      refine attempt_of_trySwap (WordMethod.run_of_swap? swaps spurious c) (fun any => ⟨any, rfl⟩)
        (expected?_of_wordMethod swaps).1 ?_
      rw [resume, WordMethod.resume_of_swap? swaps]
  | wordExport swaps =>
      refine attempt_of_trySwap (WordMethod.run_of_swap? swaps spurious c) (fun any => ⟨any, rfl⟩)
        (expected?_of_wordMethod swaps).2 ?_
      rw [resume, WordMethod.resume_of_swap? swaps]
  | byteMethod e n | byteExport e n =>
      exact attempt_of_trySwap rfl (fun _ => ⟨false, rfl⟩) rfl rfl

/-! ## The attempts of a retried call -/

/-- **`Trial w`** -- one attempt: the call made, its reply, and the cell after it. -/
structure Trial (w : Width) where
  call : Call (Value w) w
  reply : Reply w
  after : Cell w

/-- Did the attempt fail although it found the value it expected? -/
def Trial.spurious (t : Trial w) : Bool := t.call.failedSpuriously t.reply

/-- **`attempts`** -- the attempts that `settle` makes, in order. -/
def attempts (spoiled : List Bool) (c : Cell w) (call : Call (Value w) w) : List (Trial w) :=
  match spoiled with
  | [] => [⟨call, (call.run false c).1, (call.run false c).2⟩]
  | spurious :: later =>
    let (reply, after) := call.run spurious c
    ⟨call, reply, after⟩ ::
      if call.failedSpuriously reply then attempts later after (call.resume reply) else []

theorem attempts_cons (spurious : Bool) (later : List Bool) (c : Cell w)
    (call : Call (Value w) w) :
    attempts (spurious :: later) c call =
      ⟨call, (call.run spurious c).1, (call.run spurious c).2⟩ ::
        if call.failedSpuriously (call.run spurious c).1 then
          attempts later (call.run spurious c).2 (call.resume (call.run spurious c).1)
        else [] := rfl

/-- What `settle` hands back is what the last attempt handed back. -/
theorem settle_eq_last (spoiled : List Bool) (c : Cell w) (call : Call (Value w) w) :
    (attempts spoiled c call).getLast?.map (fun t => (t.reply, t.after)) =
      some (settle spoiled c call) := by
  induction spoiled generalizing c call with
  | nil => rfl
  | cons spurious later ih =>
      unfold settle
      rw [attempts_cons]
      by_cases hfailed : call.failedSpuriously (call.run spurious c).1 = true
      · have hlater := ih (call.run spurious c).2 (call.resume (call.run spurious c).1)
        obtain ⟨last, hlast, hsettled⟩ := Option.map_eq_some_iff.mp hlater
        dsimp only
        rw [if_pos hfailed, if_pos hfailed, List.getLast?_cons, hlast, Option.getD_some,
          Option.map_some, hsettled]
      · dsimp only
        rw [if_neg hfailed, if_neg hfailed]
        rfl

/-- How many attempts the platform spoils: none if the cell holds another value than expected. -/
def spoils (call : Call (Value w) w) (c : Cell w) (spoiled : List Bool) : Nat :=
  if call.expected? = some c.value then (spoiled.takeWhile id).length else 0

theorem spoils_of_unspoiled {call : Call (Value w) w} {c : Cell w} {spurious : Bool}
    (unspoiled : ¬ (spurious = true ∧ call.expected? = some c.value)) (later : List Bool) :
    call.spoils c (spurious :: later) = 0 := by
  unfold spoils
  cases spurious with
  | true => rw [if_neg fun expects => unspoiled ⟨rfl, expects⟩]
  | false => simp

/-- **`attempts_eq`** -- a retried weak call is attempted until the platform lets it through: the
spoiled attempts are all alike and change nothing, and the last one is the strong call. -/
theorem Counterpart.attempts_eq (h : Counterpart weak strong) (spoiled : List Bool) (c : Cell w)
    (any : Bool) :
    ∃ failed : List (Trial w),
      attempts spoiled c weak = failed ++ [⟨weak, (strong.run any c).1, (strong.run any c).2⟩] ∧
        failed.length = weak.spoils c spoiled ∧
        (∀ t ∈ failed, t.call = weak ∧ t.after = c ∧ t.spurious = true) ∧
        weak.failedSpuriously (strong.run any c).1 = false := by
  induction spoiled with
  | nil =>
      generalize hrun : weak.run false c = r
      have hattempt := h.attempt c false
      rw [hrun] at hattempt
      cases hattempt with
      | spoiled spoil => exact absurd spoil (by decide)
      | settled unspoiled same final =>
          refine ⟨[], ?_, ?_, fun t ht => absurd ht List.not_mem_nil, ?_⟩
          · rw [attempts, hrun, same any, List.nil_append]
          · simp [spoils]
          · rw [same any]
            exact final
  | cons spurious later ih =>
      generalize hrun : weak.run spurious c = r
      have hattempt := h.attempt c spurious
      rw [hrun] at hattempt
      cases hattempt with
      | @spoiled reply spoil expects failed again =>
          obtain ⟨more, hmore, hlength, halike, hfinal⟩ := ih
          refine ⟨⟨weak, reply, c⟩ :: more, ?_, ?_, ?_, hfinal⟩
          · rw [attempts_cons, hrun, if_pos failed, again, hmore, List.cons_append]
          · rw [List.length_cons, hlength]
            simp [spoils, expects, spoil]
          · intro t ht
            rcases List.mem_cons.mp ht with rfl | ht
            · exact ⟨rfl, rfl, failed⟩
            · exact halike t ht
      | settled unspoiled same final =>
          refine ⟨[], ?_, (spoils_of_unspoiled unspoiled later).symm,
            fun t ht => absurd ht List.not_mem_nil, ?_⟩
          · rw [attempts_cons, hrun, final, same any, List.nil_append]
            rfl
          · rw [same any]
            exact final

/-- **`settle_eq`** -- a retried weak call hands back, and leaves behind, what the strong call
does. -/
theorem Counterpart.settle_eq (h : Counterpart weak strong) (spoiled : List Bool) (c : Cell w)
    (any : Bool) : weak.settle spoiled c = strong.run any c := by
  obtain ⟨failed, hattempts, -⟩ := h.attempts_eq spoiled c any
  have hlast := settle_eq_last spoiled c weak
  rw [hattempts, List.getLast?_concat] at hlast
  exact (Option.some.inj hlast).symm

theorem Counterpart.countP_attempts (h : Counterpart weak strong) (spoiled : List Bool)
    (c : Cell w) :
    (attempts spoiled c weak).countP Trial.spurious = weak.spoils c spoiled ∧
      (attempts spoiled c weak).length = weak.spoils c spoiled + 1 := by
  obtain ⟨failed, hattempts, hlength, halike, hfinal⟩ := h.attempts_eq spoiled c false
  rw [hattempts, ← hlength]
  constructor
  · have hall : failed.countP Trial.spurious = failed.length :=
      List.countP_eq_length.mpr fun t ht => (halike t ht).2.2
    have hlast : Trial.spurious ⟨weak, (strong.run false c).1, (strong.run false c).2⟩ = false :=
      hfinal
    rw [List.countP_append, hall, List.countP_singleton, hlast]
    rfl
  · rw [List.length_append, List.length_singleton]

/-- A strong call that is retried is made once. -/
theorem Counterpart.settle_strong (h : Counterpart weak strong) (spoiled : List Bool) (c : Cell w)
    (any : Bool) : strong.settle spoiled c = strong.run any c := by
  have hsame : ∀ asked, strong.run asked c = strong.run any c := by
    intro asked
    rw [← h.settle_eq [] c asked, h.settle_eq [] c any]
  have hnever (reply : Reply w) : strong.failedSpuriously reply = false := by
    rw [failedSpuriously, h.expected?_strong]
  cases spoiled with
  | nil => exact hsame false
  | cons spurious later =>
      unfold settle
      simp only [hnever, Bool.false_eq_true, if_false]
      exact hsame spurious

end Call

/-! ## Programs -/

/-- **`Act w`** -- what a program does with a cell. -/
inductive Act (w : Width) where
  /-- One call, which the platform spoils or not. -/
  | once (call : Call (Value w) w) (spurious : Bool)
  /-- A call that is retried as long as it fails spuriously. -/
  | retried (call : Call (Value w) w) (spoiled : List Bool)

namespace Act

/-- The reply that the program gets to see, and the cell afterwards. -/
def run (c : Cell w) : Act w → Reply w × Cell w
  | once call spurious => call.run spurious c
  | retried call spoiled => call.settle spoiled c

/-- **`Interchangeable`** -- the two differ in that retried weak calls stand for strong ones, or the
reverse, and in what the platform spoils of them. -/
inductive Interchangeable : Act w → Act w → Prop
  | refl (act : Act w) : Interchangeable act act
  | symm {act other : Act w} : Interchangeable act other → Interchangeable other act
  | trans {act other third : Act w} :
      Interchangeable act other → Interchangeable other third → Interchangeable act third
  /-- One strong call instead of the loop. -/
  | once {weak strong : Call (Value w) w} (h : weak.Counterpart strong) (spoiled : List Bool)
      (spurious : Bool) : Interchangeable (.retried weak spoiled) (.once strong spurious)
  /-- The strong call instead of the weak one in the loop. -/
  | within {weak strong : Call (Value w) w} (h : weak.Counterpart strong)
      (spoiled spoiled' : List Bool) :
      Interchangeable (.retried weak spoiled) (.retried strong spoiled')

theorem Interchangeable.run_eq {act other : Act w} (h : act.Interchangeable other) (c : Cell w) :
    act.run c = other.run c := by
  induction h with
  | refl => rfl
  | symm _ ih => exact ih.symm
  | trans _ _ ih ih' => exact ih.trans ih'
  | once h spoiled spurious => exact h.settle_eq spoiled c spurious
  | within h spoiled spoiled' =>
      show Call.settle spoiled c _ = Call.settle spoiled' c _
      rw [h.settle_eq spoiled c false, h.settle_strong spoiled' c false]

end Act

/-- **`Cells`** -- any number of cells of either width. -/
def Cells := (w : Width) → Nat → Cell w

/-- **`Operation`** -- which cell a program turns to, and what it does with it. -/
structure Operation where
  width : Width
  cell : Nat
  act : Act width

/-- A reply, from a cell of either width. -/
abbrev Heard := (w : Width) × Reply w

/-- **`Plan`** -- a program: what it does next, once it has heard these replies, first reply
first. -/
def Plan := List Heard → Operation

/-- Two operations on the same cell, with interchangeable acts. -/
inductive Operation.Interchangeable : Operation → Operation → Prop
  | mk {w : Width} (cell : Nat) {act other : Act w} (h : act.Interchangeable other) :
      Interchangeable ⟨w, cell, act⟩ ⟨w, cell, other⟩

namespace Cells

/-- One operation: its reply, and the cells afterwards. -/
def operate (cells : Cells) (o : Operation) : Heard × Cells :=
  let (reply, after) := o.act.run (cells o.width o.cell)
  (⟨o.width, reply⟩,
    Function.update cells o.width (Function.update (cells o.width) o.cell after))

/-- **`follow`** -- so many operations of a program that has already heard some replies: everything
it has heard then, and the cells. -/
def follow (plan : Plan) : Nat → List Heard → Cells → List Heard × Cells
  | 0, heard, cells => (heard, cells)
  | n + 1, heard, cells =>
    let (reply, after) := cells.operate (plan heard)
    follow plan n (heard ++ [reply]) after

theorem operate_eq (cells : Cells) {o other : Operation} (h : o.Interchangeable other) :
    cells.operate o = cells.operate other := by
  cases h with
  | mk cell h =>
      unfold operate
      dsimp only
      rw [h.run_eq]

/-- Programs that hear the same do the same. -/
theorem follow_eq {plan other : Plan}
    (h : ∀ heard, (plan heard).Interchangeable (other heard)) (n : Nat) (heard : List Heard)
    (cells : Cells) : follow plan n heard cells = follow other n heard cells := by
  induction n generalizing heard cells with
  | zero => rfl
  | succ n ih =>
      unfold follow
      rw [cells.operate_eq (h heard)]
      exact ih _ _

end Cells

/-- **`retried_as_strong`** -- every weak entry point has a strong counterpart. For every such pair,
every cell, and whatever attempts the platform spoils: the weak one, called again with what it left
in `expected` as long as it failed with the value it expected, hands back and leaves behind what
one call of the strong one does, and so does its last attempt; it is attempted once more than it
fails spuriously, which is as often as the platform spoils it. And no program whose next operation
may depend on all that it has heard, on any number of cells, is told anything else, or leaves
anything else behind, if retried weak calls and strong calls replace each other in it. -/
theorem Call.retried_as_strong :
    (∀ {w : Width} {weak : Call (Value w) w} {e : Value w}, weak.expected? = some e →
        ∃ strong, weak.Counterpart strong) ∧
      (∀ {w : Width} {weak strong : Call (Value w) w}, weak.Counterpart strong →
        ∀ (c : Cell w) (spoiled : List Bool) (any : Bool),
          let attempts := weak.attempts spoiled c
          weak.settle spoiled c = strong.run any c ∧
            attempts.getLast?.map (fun t => (t.reply, t.after)) = some (strong.run any c) ∧
            attempts.length = attempts.countP Trial.spurious + 1 ∧
            attempts.countP Trial.spurious =
              if weak.expected? = some c.value then (spoiled.takeWhile id).length else 0) ∧
      ∀ plan other : Plan, (∀ heard, (plan heard).Interchangeable (other heard)) →
        ∀ n heard cells, Cells.follow plan n heard cells = Cells.follow other n heard cells := by
  refine ⟨exists_counterpart, ?_, fun plan other h n heard cells => Cells.follow_eq h n heard cells⟩
  intro w weak strong h c spoiled any attempts
  obtain ⟨hspurious, hlength⟩ := h.countP_attempts spoiled c
  have hsettled := h.settle_eq spoiled c any
  refine ⟨hsettled, ?_, ?_, hspurious⟩
  · rw [← hsettled]
    exact settle_eq_last spoiled c weak
  · show (weak.attempts spoiled c).length = _
    rw [hlength, hspurious]

/-- An exported entry point, spoiled twice: three attempts, and a program that goes on with what it
has heard does not notice. -/
theorem Call.retried_as_strong_exported :
    let weak : Call (Value .word) .word := .wordExport (.method (.trySwapAcqRel 5 9))
    let strong : Call (Value .word) .word := .trySwap .strong 5 9 .acqRel
    let plan (act : Act .word) : Plan := fun heard =>
      if heard.length = 1 then ⟨.word, 0, act⟩ else ⟨.byte, 0, .once (.fetchAdd 1) false⟩
    let cells : Cells := fun _ _ => ⟨0, 5⟩
    weak.settle [true, true] ⟨0, 5⟩ = strong.run false ⟨0, 5⟩ ∧
      (weak.attempts [true, true] ⟨0, 5⟩).length = 3 ∧
      Cells.follow (plan (.retried weak [true, true])) 3 [] cells =
        Cells.follow (plan (.once strong false)) 3 [] cells := by
  intro weak strong plan cells
  have hpair : weak.Counterpart strong := .wordExport rfl
  obtain ⟨-, hcalls, hprograms⟩ := retried_as_strong
  obtain ⟨hsettled, -, hlength, hspurious⟩ := hcalls hpair ⟨0, 5⟩ [true, true] false
  refine ⟨hsettled, ?_, hprograms _ _ (fun heard => ?_) 3 [] cells⟩
  · rw [hlength, hspurious]
    rfl
  · show (if _ then _ else _ : Operation).Interchangeable (if _ then _ else _)
    split
    case isTrue => exact .mk 0 (.once hpair [true, true] false)
    case isFalse => exact .mk 0 (.refl _)

end SharedCells
