/-
# SharedCells.Proofs.Concurrent.Linearization -- concurrent changes happen one after another

Workers interleave their cell operations in any way, and a retry loop may hold a value that the
cell has long lost, or has lost and found again by wraparound. Still the completed changes stand
in one line. `Linearized` states this for a pool and an order of its completed changes: each
worker's changes come in the worker's own order, each change reports the initial value plus the
signed amounts of the changes before it, and the cell holds the initial value plus all of them,
everything modulo two to the width.

The order is the one in which the changes took effect. It only ever grows at its end, so it also
respects the order in time. A stale value in hand needs no invariant of its own: a swap takes
effect only where the cell holds that very value.

* `step_linearized` : one move keeps the completed changes in line.
* `run_linearized` : so does every schedule, whatever the platform spoils.
-/

import SharedCells.Proofs.Concurrent.Moves

namespace SharedCells

variable {w : Width}

/-! ## The value after a line of changes -/

/-- The amount of a change as an integer, negative for a subtraction. -/
def Change.signed (c : Change w) : Int :=
  match c.kind with
  | .sub => -(c.amount.toNat : Int)
  | _ => c.amount.toNat

/-- The sum of the signed amounts. -/
def Change.signedTotal : List (Change w) → Int
  | [] => 0
  | c :: cs => c.signed + signedTotal cs

/-- **`valueAfter`** -- the initial value plus the signed amounts, modulo two to the width. -/
def valueAfter (initial : Value w) (changes : List (Change w)) : Value w :=
  BitVec.ofInt w.bits (initial.toNat + Change.signedTotal changes)

namespace Change

theorem signedTotal_append (cs ds : List (Change w)) :
    signedTotal (cs ++ ds) = signedTotal cs + signedTotal ds := by
  induction cs with
  | nil => simp [signedTotal]
  | cons c cs ih =>
      rw [List.cons_append, signedTotal, signedTotal, ih]
      omega

theorem signedTotal_perm {cs ds : List (Change w)} (h : cs.Perm ds) :
    signedTotal cs = signedTotal ds := by
  induction h with
  | nil => rfl
  | cons c _ ih => rw [signedTotal, signedTotal, ih]
  | swap c d cs =>
      simp only [signedTotal]
      omega
  | trans _ _ ih₁ ih₂ => rw [ih₁, ih₂]

/-- The delta is the signed amount modulo two to the width. -/
theorem ofInt_signed (c : Change w) : BitVec.ofInt w.bits c.signed = c.delta := by
  obtain ⟨kind, amount, order⟩ := c
  cases kind with
  | sub => simp [signed, delta, BitVec.ofInt_neg]
  | add | weak | strong | result => simp [signed, delta]

end Change

theorem valueAfter_nil (initial : Value w) : valueAfter initial [] = initial := by
  simp [valueAfter, Change.signedTotal]

theorem valueAfter_concat (initial : Value w) (changes : List (Change w)) (c : Change w) :
    valueAfter initial (changes ++ [c]) = valueAfter initial changes + c.delta := by
  have htotal : Change.signedTotal (changes ++ [c]) = Change.signedTotal changes + c.signed := by
    rw [Change.signedTotal_append]
    simp [Change.signedTotal]
  rw [valueAfter, valueAfter, htotal, ← Int.add_assoc, BitVec.ofInt_add, c.ofInt_signed]

theorem valueAfter_perm (initial : Value w) {cs ds : List (Change w)} (h : cs.Perm ds) :
    valueAfter initial cs = valueAfter initial ds := by
  rw [valueAfter, valueAfter, Change.signedTotal_perm h]

/-! ## Changes in line -/

/-- The changes of one worker among those completed, in their order. -/
def Ticket.changesOf (worker : Nat) (order : List (Ticket w)) : List (Change w) :=
  (order.filter fun t => t.worker = worker).map Ticket.change

theorem Ticket.changesOf_concat (worker : Nat) (order : List (Ticket w)) (t : Ticket w) :
    changesOf worker (order ++ [t]) =
      changesOf worker order ++ if t.worker = worker then [t.change] else [] := by
  by_cases h : t.worker = worker <;> simp [changesOf, h]

namespace Pool

/-- What each worker has still to do. -/
def todos (p : Pool w) : List (List (Change w)) := p.workers.map Worker.todo

/-- **`order`** -- the completed changes in the order in which they took effect. -/
def order (p : Pool w) : List (Ticket w) := p.log.reverse

/-- **`Linearized`** -- the completed changes of a pool stand in line as `order` lists them. -/
structure Linearized (initial : Value w) (jobs : List (List (Change w))) (p : Pool w)
    (order : List (Ticket w)) : Prop where
  /-- A worker's job is what it has completed, in its own order, and then what it has to do. -/
  ownOrder : ∀ i : Nat, jobs[i]? = p.todos[i]?.map fun todo => Ticket.changesOf i order ++ todo
  /-- The order lists the completed changes and no others. -/
  complete : (order.map Ticket.change ++ p.todos.flatten).Perm jobs.flatten
  /-- A change reports the initial value plus the signed amounts of the changes before it. -/
  previous : ∀ earlier t later, order = earlier ++ t :: later →
    t.previous = valueAfter initial (earlier.map Ticket.change)
  /-- The cell holds the initial value plus the signed amounts of all completed changes. -/
  value : p.cell.value = valueAfter initial (order.map Ticket.change)

theorem start_linearized (cell : Cell w) (jobs : List (List (Change w))) :
    Linearized cell.value jobs (start cell jobs) (start cell jobs).order := by
  have htodos : (start cell jobs).todos = jobs := by
    simp [todos, start, Worker.start, Function.comp_def]
  refine ⟨?_, ?_, ?_, ?_⟩
  · intro i
    rw [htodos]
    cases jobs[i]? <;> simp [order, start, Ticket.changesOf]
  · rw [htodos]
    simp [order, start]
  · intro earlier t later h
    simp [order, start] at h
  · simp [order, start, valueAfter_nil]

/-- A move that completes nothing leaves the line as it is. -/
theorem Linearized.silent {initial : Value w} {jobs : List (List (Change w))} {p q : Pool w}
    (h : Linearized initial jobs p p.order) (hcell : q.cell.value = p.cell.value)
    (htodos : q.todos = p.todos) (hlog : q.log = p.log) :
    Linearized initial jobs q q.order := by
  have horder : q.order = p.order := by rw [order, order, hlog]
  rw [horder]
  refine ⟨?_, ?_, h.previous, ?_⟩
  · rw [htodos]
    exact h.ownOrder
  · rw [htodos]
    exact h.complete
  · rw [hcell]
    exact h.value

/-- Taking the head off one of several lists takes one element off them all. -/
theorem perm_flatten_set {α : Type} {ls : List (List α)} {i : Nat} {a : α} {l : List α}
    (h : ls[i]? = some (a :: l)) : ls.flatten.Perm (a :: (ls.set i l).flatten) := by
  induction ls generalizing i with
  | nil => simp at h
  | cons k ls ih =>
      cases i with
      | zero =>
          obtain rfl : k = a :: l := by simpa using h
          simp
      | succ i =>
          have htail : ls[i]? = some (a :: l) := by simpa using h
          simp only [List.flatten_cons, List.set_cons_succ]
          exact ((ih htail).append_left k).trans List.perm_middle

/-- A change that takes effect joins the line at its end. -/
theorem Linearized.effect {initial : Value w} {jobs : List (List (Change w))} {p q : Pool w}
    (h : Linearized initial jobs p p.order) {i : Nat} {change : Change w}
    {rest : List (Change w)} (htodo : p.todos[i]? = some (change :: rest))
    (hcell : q.cell.value = p.cell.value + change.delta) (htodos : q.todos = p.todos.set i rest)
    (hlog : q.log = ⟨i, change, p.cell.value⟩ :: p.log) :
    Linearized initial jobs q q.order := by
  have horder : q.order = p.order ++ [⟨i, change, p.cell.value⟩] := by
    rw [order, order, hlog, List.reverse_cons]
  have hmap : q.order.map Ticket.change = p.order.map Ticket.change ++ [change] := by
    rw [horder, List.map_append]
    rfl
  refine ⟨?_, ?_, ?_, ?_⟩
  · intro k
    rw [h.ownOrder k, htodos, horder]
    by_cases hk : i = k
    · subst hk
      have hi : i < p.todos.length := (List.getElem?_eq_some_iff.mp htodo).1
      simp [htodo, List.getElem?_set_self hi, Ticket.changesOf_concat]
    · simp [List.getElem?_set_ne hk, Ticket.changesOf_concat, hk]
  · rw [hmap, htodos, List.append_assoc]
    exact ((perm_flatten_set htodo).symm.append_left _).trans h.complete
  · intro earlier t later hsplit
    rw [horder] at hsplit
    rcases List.eq_nil_or_concat later with rfl | ⟨later, last, rfl⟩
    · obtain ⟨hearlier, ht⟩ := List.append_inj' hsplit rfl
      obtain rfl : t = ⟨i, change, p.cell.value⟩ := by simpa using ht.symm
      rw [← hearlier]
      exact h.value
    · have hlast : p.order ++ [⟨i, change, p.cell.value⟩] = (earlier ++ t :: later) ++ [last] := by
        simpa using hsplit
      exact h.previous earlier t later (List.append_inj' hlast rfl).1
  · rw [hmap, valueAfter_concat, hcell, h.value]

/-- **`step_linearized`** -- one move keeps the completed changes in line. -/
theorem step_linearized {initial : Value w} {jobs : List (List (Change w))} {p : Pool w}
    (h : Linearized initial jobs p p.order) (move : Move) :
    Linearized initial jobs (p.step move) (p.step move).order := by
  rcases p.step_cases move with hstay | ⟨x, completed, x', cell, hx, hmoves, hstep⟩
  · rw [hstay]
    exact h
  · have hset : (p.step move).todos = p.todos.set move.worker x'.todo := by
      rw [hstep, todos, todos, List.map_set]
    have hhere : p.todos[move.worker]? = some x.todo := by simp [todos, hx]
    have hsame (hx' : x'.todo = x.todo) : (p.step move).todos = p.todos := by
      obtain ⟨hi, hget⟩ := List.getElem?_eq_some_iff.mp hhere
      rw [hset, hx', ← hget, List.set_getElem_self hi]
    cases hmoves with
    | idle | loads => exact h.silent (by rw [hstep]) (hsame rfl) (by rw [hstep]; rfl)
    | misses =>
        refine h.silent (by rw [hstep]) (hsame ?_) (by rw [hstep]; rfl)
        rw [Worker.miss]
        split <;> rfl
    | fetches todo | swaps todo =>
        rw [todo] at hhere
        refine h.effect hhere (by rw [hstep]) ?_ (by rw [hstep]; rfl)
        rw [hset, Worker.complete, todo, List.tail_cons]

theorem run_step_linearized {initial : Value w} {jobs : List (List (Change w))} {p : Pool w}
    (h : Linearized initial jobs p p.order) (schedule : List Move) :
    Linearized initial jobs (p.run schedule) (p.run schedule).order := by
  induction schedule generalizing p with
  | nil => exact h
  | cons move schedule ih => exact ih (step_linearized h move)

/-! ## The order in time -/

theorem order_prefix_step (p : Pool w) (move : Move) : p.order <+: (p.step move).order := by
  rcases p.step_cases move with hstay | ⟨_, completed, _, _, _, _, hstep⟩
  · exact hstay.symm ▸ List.prefix_rfl
  · rw [hstep, order, order, List.reverse_prefix]
    cases completed with
    | none => exact List.suffix_rfl
    | some completed => exact List.suffix_cons _ _

/-- What is completed stays in line where it is. -/
theorem order_prefix_run (p : Pool w) (schedule : List Move) :
    p.order <+: (p.run schedule).order := by
  induction schedule generalizing p with
  | nil => exact List.prefix_rfl
  | cons move schedule ih => exact (p.order_prefix_step move).trans (ih (p.step move))

theorem run_append (p : Pool w) (earlier later : List Move) :
    p.run (earlier ++ later) = (p.run earlier).run later := List.foldl_append

theorem todos_flatten_of_finished {p : Pool w} (h : p.finished = true) : p.todos.flatten = [] := by
  rw [finished, List.all_eq_true] at h
  refine List.flatten_eq_nil_iff.mpr fun todo hmem => ?_
  obtain ⟨x, hx, rfl⟩ := List.mem_map.mp hmem
  exact List.isEmpty_iff.mp (h x hx)

/-- **`run_linearized`** -- for every pool, every schedule and every pattern of spurious
failures, the completed changes stand in line in the order in which they took effect; that order
extends the one of every earlier moment; and once all workers are finished the cell holds the
initial value plus the signed amounts of all changes. -/
theorem run_linearized (cell : Cell w) (jobs : List (List (Change w))) (schedule : List Move) :
    let p := (start cell jobs).run schedule
    Linearized cell.value jobs p p.order ∧
      (∀ earlier later, schedule = earlier ++ later →
        ((start cell jobs).run earlier).order <+: p.order) ∧
      (p.finished = true → p.cell.value = valueAfter cell.value jobs.flatten) := by
  intro p
  have hline : Linearized cell.value jobs p p.order :=
    run_step_linearized (start_linearized cell jobs) schedule
  refine ⟨hline, ?_, ?_⟩
  · rintro earlier later rfl
    have hp : p = ((start cell jobs).run earlier).run later := run_append _ _ _
    rw [hp]
    exact order_prefix_run _ _
  · intro hfinished
    have hall : (p.order.map Ticket.change).Perm jobs.flatten := by
      simpa [todos_flatten_of_finished hfinished] using hline.complete
    rw [hline.value]
    exact valueAfter_perm cell.value hall

/-- A value in hand is lost and comes back by wraparound, an attempt is spoiled, and the last
change wraps below zero. -/
theorem run_linearized_wrapping :
    let jobs : List (List (Change .byte)) :=
      [[⟨.weak, 1, .relaxed⟩], [⟨.add, 128, .relaxed⟩, ⟨.add, 128, .relaxed⟩],
        [⟨.sub, 3, .relaxed⟩]]
    let schedule : List Move :=
      [⟨0, false⟩, ⟨1, false⟩, ⟨1, false⟩, ⟨0, true⟩, ⟨0, false⟩, ⟨2, false⟩]
    let p := (start ⟨0, 0⟩ jobs).run schedule
    p.finished = true ∧ p.cell.value = valueAfter 0 jobs.flatten ∧ p.cell.value = 254 :=
  ⟨by decide, (run_linearized ⟨0, 0⟩ _ _).2.2 (by decide), by decide⟩

end Pool

end SharedCells
