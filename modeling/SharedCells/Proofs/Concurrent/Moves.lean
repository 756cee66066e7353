/-
# SharedCells.Proofs.Concurrent.Moves -- what one move of a pool can do

A worker's next cell operation has one of five outcomes: nothing is left to do, the retry loop
takes the value in hand, an attempt misses, or a change takes effect, by a fetch or by a swap.
`Worker.Moves` lists them with everything that is known in each case, and `Worker.step_moves`
says that there are no others. `Pool.step_cases` lifts this to a move of the pool, and
`Pool.step_staffed` notes that nobody but the pool's workers completes anything.

The five kinds of change meet here for the last time. A change that takes effect reports the
value the cell held and adds its delta, whatever its kind; what differs is only whether a value
had to be in hand.
-/

import Mathlib.Tactic.ByContra
import SharedCells.Concurrent.Pool

namespace SharedCells

variable {w : Width}

namespace Change

/-- **`Loops`** -- is the change made in a retry loop? -/
def Loops (c : Change w) : Prop := c.kind ≠ .add ∧ c.kind ≠ .sub

/-- **`Spoiled c spurious`** -- does an attempt fail although it finds the value it expects? -/
def Spoiled (c : Change w) (spurious : Bool) : Prop := c.kind = .weak ∧ spurious = true

instance (c : Change w) (spurious : Bool) : Decidable (c.Spoiled spurious) :=
  inferInstanceAs (Decidable (_ ∧ _))

theorem delta_of_loops {c : Change w} (h : c.Loops) : c.delta = c.amount := by
  obtain ⟨kind, amount, order⟩ := c
  cases kind with
  | sub => exact absurd rfl h.2
  | add | weak | strong | result => rfl

/-- The three forms of compare-and-swap agree: an attempt succeeds exactly if it finds the value
in hand and is not spoiled, and then it adds the delta. -/
theorem attempt_eq {c : Change w} (h : c.Loops) (cell : Cell w) (expected : Value w)
    (spurious : Bool) :
    c.attempt cell expected spurious =
      if cell.value = expected ∧ ¬ c.Spoiled spurious then
        (⟨true, cell.value⟩, ⟨cell.address, cell.value + c.delta⟩)
      else (⟨false, cell.value⟩, cell) := by
  rw [delta_of_loops h]
  obtain ⟨kind, amount, order⟩ := c
  cases kind with
  | add => exact absurd rfl h.1
  | sub => exact absurd rfl h.2
  | weak =>
      simp only [attempt, Cell.trySwap_eq, Access.exchanges_weak, Spoiled]
      by_cases hv : cell.value = expected <;> cases spurious <;> simp [hv]
  | strong =>
      simp only [attempt, Cell.trySwap_eq, Access.exchanges_strong, Spoiled]
      by_cases hv : cell.value = expected <;> simp [hv]
  | result =>
      simp only [attempt, Cell.compareExchange_eq, Access.exchanges_strong, Spoiled]
      by_cases hv : cell.value = expected <;> simp [hv]

end Change

namespace Worker

/-- **`Moves x cell spurious`** -- the outcomes of the worker's next cell operation. -/
inductive Moves (x : Worker w) (cell : Cell w) (spurious : Bool) :
    Option (Change w × Value w) × Worker w × Cell w → Prop
  | idle (todo : x.todo = []) : Moves x cell spurious (none, x, cell)
  | loads {change : Change w} {rest : List (Change w)} (todo : x.todo = change :: rest)
      (loops : change.Loops) (hand : x.expected = none) :
      Moves x cell spurious (none, { x with expected := some cell.value }, cell)
  | misses {change : Change w} {rest : List (Change w)} {expected : Value w}
      (todo : x.todo = change :: rest) (loops : change.Loops) (hand : x.expected = some expected)
      (spoiled : cell.value = expected → change.Spoiled spurious) :
      Moves x cell spurious (none, x.miss expected cell.value, cell)
  | fetches {change : Change w} {rest : List (Change w)} (todo : x.todo = change :: rest)
      (atOnce : ¬ change.Loops) :
      Moves x cell spurious (some (change, cell.value), x.complete,
        ⟨cell.address, cell.value + change.delta⟩)
  | swaps {change : Change w} {rest : List (Change w)} (todo : x.todo = change :: rest)
      (loops : change.Loops) (hand : x.expected = some cell.value)
      (unspoiled : ¬ change.Spoiled spurious) :
      Moves x cell spurious (some (change, cell.value), x.complete,
        ⟨cell.address, cell.value + change.delta⟩)

/-- In a retry loop the step is the load, or the attempt. -/
theorem step_of_loops {x : Worker w} {change : Change w} {rest : List (Change w)}
    (todo : x.todo = change :: rest) (loops : change.Loops) (cell : Cell w) (spurious : Bool) :
    x.step cell spurious =
      match x.expected with
      | none => (none, { x with expected := some cell.value }, cell)
      | some expected =>
        if cell.value = expected ∧ ¬ change.Spoiled spurious then
          (some (change, expected), x.complete, ⟨cell.address, cell.value + change.delta⟩)
        else (none, x.miss expected cell.value, cell) := by
  have hattempt := change.attempt_eq loops cell
  obtain ⟨kind, amount, order⟩ := change
  cases hx : x.expected with
  | none =>
      cases kind with
      | add => exact absurd rfl loops.1
      | sub => exact absurd rfl loops.2
      | weak | strong | result => simp [step, todo, hx]
  | some expected =>
      cases kind with
      | add => exact absurd rfl loops.1
      | sub => exact absurd rfl loops.2
      | weak | strong | result =>
          simp only [step, todo, hx, hattempt]
          split <;> simp

/-- **`step_moves`** -- a worker's step has one of the listed outcomes. -/
theorem step_moves (x : Worker w) (cell : Cell w) (spurious : Bool) :
    x.Moves cell spurious (x.step cell spurious) := by
  cases todo : x.todo with
  | nil =>
      rw [step, todo]
      exact .idle todo
  | cons change rest =>
      by_cases loops : change.Loops
      · rw [step_of_loops todo loops]
        cases hand : x.expected with
        | none => exact .loads todo loops hand
        | some expected =>
            by_cases h : cell.value = expected ∧ ¬ change.Spoiled spurious
            · obtain ⟨rfl, unspoiled⟩ := h
              simp only [unspoiled, not_false_eq_true, and_self, if_true]
              exact .swaps todo loops hand unspoiled
            · simp only [h, if_false]
              refine .misses todo loops hand fun found => ?_
              by_contra unspoiled
              exact h ⟨found, unspoiled⟩
      · have atOnce : change.kind = .add ∨ change.kind = .sub := by
          by_contra h
          exact loops ⟨fun ha => h (Or.inl ha), fun hs => h (Or.inr hs)⟩
        have hstep : x.step cell spurious = (some (change, cell.value), x.complete,
            ⟨cell.address, cell.value + change.delta⟩) := by
          rcases atOnce with h | h <;>
            simp [step, todo, h, Change.delta, BitVec.sub_eq_add_neg]
        rw [hstep]
        exact .fetches todo loops

end Worker

namespace Pool

/-- The log after a move that completed a change, or none. -/
def logged (worker : Nat) (log : List (Ticket w)) : Option (Change w × Value w) → List (Ticket w)
  | none => log
  | some (change, previous) => ⟨worker, change, previous⟩ :: log

theorem step_of_none {p : Pool w} {move : Move} (hx : p.workers[move.worker]? = none) :
    p.step move = p := by
  rw [step, hx]

/-- A move of a worker that is there is the worker's next cell operation. -/
theorem step_of_some {p : Pool w} {move : Move} {x : Worker w}
    (hx : p.workers[move.worker]? = some x) :
    ∃ completed x' cell, x.Moves p.cell move.spurious (completed, x', cell) ∧
      p.step move = ⟨cell, p.workers.set move.worker x', logged move.worker p.log completed⟩ := by
  refine ⟨(x.step p.cell move.spurious).1, (x.step p.cell move.spurious).2.1,
    (x.step p.cell move.spurious).2.2, x.step_moves p.cell move.spurious, ?_⟩
  rw [step, hx]
  rcases h : x.step p.cell move.spurious with ⟨_ | ⟨change, previous⟩, x', cell⟩ <;>
    simp [logged, h]

/-- **`step_cases`** -- a move changes nothing, or one worker makes its next cell operation. -/
theorem step_cases (p : Pool w) (move : Move) :
    p.step move = p ∨
      ∃ x completed x' cell, p.workers[move.worker]? = some x ∧
        x.Moves p.cell move.spurious (completed, x', cell) ∧
        p.step move = ⟨cell, p.workers.set move.worker x', logged move.worker p.log completed⟩ := by
  cases hx : p.workers[move.worker]? with
  | none => exact Or.inl (step_of_none hx)
  | some x =>
      obtain ⟨completed, x', cell, hmoves, hstep⟩ := step_of_some hx
      exact Or.inr ⟨x, completed, x', cell, rfl, hmoves, hstep⟩

/-- **`Staffed`** -- whatever is completed was completed by a worker of the pool. -/
def Staffed (p : Pool w) : Prop := ∀ t ∈ p.log, t.worker < p.workers.length

theorem start_staffed (cell : Cell w) (jobs : List (List (Change w))) :
    (start cell jobs).Staffed := nofun

theorem step_staffed {p : Pool w} (h : p.Staffed) (move : Move) : (p.step move).Staffed := by
  intro t ht
  rcases p.step_cases move with hstay | ⟨x, completed, x', cell, hx, -, hstep⟩
  · rw [hstay] at ht ⊢
    exact h t ht
  · rw [hstep] at ht ⊢
    rw [List.length_set]
    cases completed with
    | none => exact h t ht
    | some effect =>
        rcases List.mem_cons.mp ht with rfl | hbefore
        · exact (List.getElem?_eq_some_iff.mp hx).1
        · exact h t hbefore

theorem run_staffed {p : Pool w} (h : p.Staffed) (schedule : List Move) :
    (p.run schedule).Staffed := by
  induction schedule generalizing p with
  | nil => exact h
  | cons move schedule ih => exact ih (step_staffed h move)

end Pool

end SharedCells
