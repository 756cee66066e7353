/-
# SharedCells.Proofs.Concurrent.Misses -- every failed attempt has somebody to blame

A retry loop has no bound of its own. What bounds it is that an attempt fails for one of two
reasons: the platform spoils it, or the cell does not hold what the worker saw there last. In the
second case somebody else has changed the cell in between; and as the attempt hands back what it
found, the same change is never to blame for two failures of one worker. So a worker that fails has
let another one through.

Failed attempts are counted from what the cell answers, move by move (`Pool.miss?`), and not from
the workers' own counters; that the counters agree is part of the invariant `Pool.Charged`. A value
in hand that the cell no longer holds counts ahead: its change has been made, its failure is still
to come. That carries the invariant over stale values, over values that come back by wraparound,
and over the fresh load of every change.

* `Pool.step_charged` : a move charges a failure to a change that nobody has charged.
* `RetryCount.step_accounted`, `RetryCount.run_accounted` : the counts, for a move and a schedule.
-/

import SharedCells.Concurrent.RetryCount
import SharedCells.Proofs.Concurrent.Moves

namespace SharedCells

variable {w : Width}

/-! ## Failed attempts -/

/-- **`Miss w`** -- a failed attempt: whose it was, what it expected and what it found. -/
structure Miss (w : Width) where
  worker : Nat
  expected : Value w
  found : Value w

/-- Did the attempt fail although it found what it expected? -/
def Miss.spurious (m : Miss w) : Bool := m.found = m.expected

instance (c : Change w) : Decidable c.Loops := inferInstanceAs (Decidable (_ ∧ _))

/-- The worker's next operation, if it is an attempt that fails: what is expected and found. -/
def Worker.miss? (x : Worker w) (cell : Cell w) (spurious : Bool) : Option (Value w × Value w) :=
  match x.todo, x.expected with
  | change :: _, some expected =>
    let swap := (change.attempt cell expected spurious).1
    if change.Loops ∧ swap.done = false then some (expected, swap.expected) else none
  | _, _ => none

namespace Pool

/-- **`miss?`** -- the attempt that fails in this move, if one does. -/
def miss? (p : Pool w) (move : Move) : Option (Miss w) :=
  match p.workers[move.worker]? with
  | none => none
  | some x =>
    (x.miss? p.cell move.spurious).map fun (expected, found) => ⟨move.worker, expected, found⟩

end Pool

namespace Worker

theorem miss?_of_idle {x : Worker w} (todo : x.todo = []) (cell : Cell w) (spurious : Bool) :
    x.miss? cell spurious = none := by
  simp only [miss?, todo]

theorem miss?_of_no_hand {x : Worker w} (hand : x.expected = none) (cell : Cell w)
    (spurious : Bool) : x.miss? cell spurious = none := by
  unfold miss?
  rw [hand]
  split
  case h_1 heq => exact absurd heq nofun
  case h_2 => rfl

theorem miss?_of_fetch {x : Worker w} {change : Change w} {rest : List (Change w)}
    (todo : x.todo = change :: rest) (atOnce : ¬ change.Loops) (cell : Cell w) (spurious : Bool) :
    x.miss? cell spurious = none := by
  cases hand : x.expected with
  | none => exact miss?_of_no_hand hand cell spurious
  | some expected => simp [miss?, todo, hand, atOnce]

/-- An attempt fails unless it finds what it expects and is not spoiled, and it hands back what it
found. -/
theorem miss?_of_loops {x : Worker w} {change : Change w} {rest : List (Change w)}
    {expected : Value w} (todo : x.todo = change :: rest) (loops : change.Loops)
    (hand : x.expected = some expected) (cell : Cell w) (spurious : Bool) :
    x.miss? cell spurious =
      if cell.value = expected ∧ ¬ change.Spoiled spurious then none
      else some (expected, cell.value) := by
  simp only [miss?, todo, hand, change.attempt_eq loops]
  by_cases h : cell.value = expected ∧ ¬ change.Spoiled spurious
  · simp [h]
  · simp [h, loops]

end Worker

/-! ## Charges -/

/-- Failed attempts of a worker are spurious or not. -/
theorem countP_split (missed : List (Miss w)) (i : Nat) :
    (missed.countP fun m => m.worker = i ∧ m.spurious = false) +
        (missed.countP fun m => m.worker = i ∧ m.spurious = true) =
      missed.countP fun m => m.worker = i := by
  induction missed with
  | nil => rfl
  | cons m missed ih =>
      rw [List.countP_cons, List.countP_cons, List.countP_cons, ← ih]
      by_cases hm : m.worker = i
      · cases m.spurious <;> simp [hm] <;> omega
      · simp [hm]

/-- Does the worker hold a value that the cell has lost? Its next attempt will fail then. -/
def Worker.outdated (x : Worker w) (cell : Cell w) : Nat :=
  match x.expected with
  | none => 0
  | some expected => if expected = cell.value then 0 else 1

theorem Worker.outdated_le (x : Worker w) (cell : Cell w) : x.outdated cell ≤ 1 := by
  unfold outdated
  split
  · exact Nat.zero_le 1
  · split <;> decide

/-- **`Charged`** -- a worker's counters are those of its failed attempts, and every attempt that
failed because the cell had changed, or is going to, is charged to another worker's change. -/
structure Worker.Charged (cell : Cell w) (log : List (Ticket w)) (missed : List (Miss w)) (i : Nat)
    (x : Worker w) : Prop where
  stale : x.stale = missed.countP fun m => m.worker = i ∧ m.spurious = false
  spurious : x.spurious = missed.countP fun m => m.worker = i ∧ m.spurious = true
  charged : x.stale + x.outdated cell ≤ log.countP fun t => t.worker ≠ i

/-- All failed attempts of a worker, spurious or not. -/
theorem Worker.Charged.misses {cell : Cell w} {log : List (Ticket w)} {missed : List (Miss w)}
    {i : Nat} {x : Worker w} (h : Charged cell log missed i x) :
    x.misses = missed.countP fun m => m.worker = i := by
  unfold Worker.misses
  rw [h.stale, h.spurious]
  exact countP_split missed i

/-- What another worker does charges nobody's failure twice. -/
theorem Worker.Charged.of_other {cell cell' : Cell w} {log log' : List (Ticket w)}
    {missed more : List (Miss w)} {i : Nat} {x : Worker w} (h : Charged cell log missed i x)
    (hmore : ∀ m ∈ more, m.worker ≠ i)
    (heffect : cell' = cell ∧ log' = log ∨ ∃ t, log' = t :: log ∧ t.worker ≠ i) :
    Charged cell' log' (missed ++ more) i x := by
  have hnone (b : Bool) : (more.countP fun m => m.worker = i ∧ m.spurious = b) = 0 :=
    List.countP_eq_zero.mpr fun m hm => by simp [hmore m hm]
  refine ⟨?_, ?_, ?_⟩
  · rw [List.countP_append, hnone, h.stale, Nat.add_zero]
  · rw [List.countP_append, hnone, h.spurious, Nat.add_zero]
  · rcases heffect with ⟨rfl, rfl⟩ | ⟨t, rfl, ht⟩
    · exact h.charged
    · have hcharged := h.charged
      have hnow := x.outdated_le cell'
      rw [List.countP_cons_of_pos (by simpa using ht)]
      omega

/-- The value in hand is up to date. -/
theorem Worker.outdated_of_hand {x : Worker w} {cell : Cell w}
    (h : x.expected = none ∨ x.expected = some cell.value) : x.outdated cell = 0 := by
  unfold outdated
  rcases h with hand | hand <;> rw [hand]
  exact if_pos rfl

/-- A worker that completes a change has nothing in hand, and is not charged with its own change. -/
theorem Worker.Charged.complete {cell : Cell w} {log : List (Ticket w)} {missed : List (Miss w)}
    {i : Nat} {x : Worker w} (h : Charged cell log missed i x) (t : Ticket w)
    (ht : t.worker = i) (cell' : Cell w) : Charged cell' (t :: log) missed i x.complete := by
  have hcharged := h.charged
  refine ⟨h.stale, h.spurious, ?_⟩
  rw [outdated_of_hand (Or.inl rfl), List.countP_cons_of_neg (by simpa using ht)]
  show x.stale + 0 ≤ _
  omega

/-- A failed attempt is charged to the change that the value in hand has missed. -/
theorem Worker.Charged.miss {cell : Cell w} {log : List (Ticket w)} {missed : List (Miss w)}
    {i : Nat} {x : Worker w} (h : Charged cell log missed i x) {expected : Value w}
    (hand : x.expected = some expected) :
    Charged cell log (missed ++ [⟨i, expected, cell.value⟩]) i (x.miss expected cell.value) := by
  have hcharged := h.charged
  unfold Worker.miss
  by_cases found : cell.value = expected
  · rw [if_pos found]
    refine ⟨?_, ?_, ?_⟩
    · simpa [List.countP_append, Miss.spurious, found] using h.stale
    · simpa [List.countP_append, Miss.spurious, found] using h.spurious
    · rw [outdated_of_hand (Or.inr rfl)]
      show x.stale + 0 ≤ _
      omega
  · -- The value in hand is outdated, and so the change that it missed has been counted.
    have hdue : x.outdated cell = 1 := by
      unfold outdated
      rw [hand]
      exact if_neg (Ne.symm found)
    rw [if_neg found]
    refine ⟨?_, ?_, ?_⟩
    · simpa [List.countP_append, Miss.spurious, found] using h.stale
    · simpa [List.countP_append, Miss.spurious, found] using h.spurious
    · rw [outdated_of_hand (Or.inr rfl)]
      show x.stale + 1 + 0 ≤ _
      omega

/-- A worker's own operation keeps it charged. -/
theorem Worker.Charged.of_moves {cell cell' : Cell w} {log : List (Ticket w)}
    {missed : List (Miss w)} {i : Nat} {x x' : Worker w} {spurious : Bool}
    {completed : Option (Change w × Value w)} (h : Charged cell log missed i x)
    (hmoves : x.Moves cell spurious (completed, x', cell')) :
    Charged cell' (Pool.logged i log completed)
      (missed ++ ((x.miss? cell spurious).map fun (e, f) => ⟨i, e, f⟩).toList) i x' := by
  have hcharged := h.charged
  cases hmoves with
  | idle todo =>
      rw [miss?_of_idle todo]
      simpa [Pool.logged] using h
  | loads todo loops hand =>
      rw [miss?_of_no_hand hand, Option.map_none, Option.toList_none, List.append_nil]
      refine ⟨h.stale, h.spurious, ?_⟩
      rw [outdated_of_hand (Or.inr rfl)]
      show x.stale + 0 ≤ _
      exact Nat.le_trans (Nat.le_add_right _ _) hcharged
  | misses todo loops hand spoiled =>
      have hfails : ¬ (cell.value = _ ∧ ¬ Change.Spoiled _ spurious) := fun hdone =>
        hdone.2 (spoiled hdone.1)
      rw [miss?_of_loops todo loops hand, if_neg hfails]
      exact h.miss hand
  | fetches todo atOnce =>
      rw [miss?_of_fetch todo atOnce, Option.map_none, Option.toList_none, List.append_nil]
      exact h.complete _ rfl _
  | swaps todo loops hand unspoiled =>
      rw [miss?_of_loops todo loops hand, if_pos ⟨rfl, unspoiled⟩, Option.map_none,
        Option.toList_none, List.append_nil]
      exact h.complete _ rfl _

namespace Pool

/-- **`Charged`** -- every worker of the pool is charged, and nobody else appears. -/
structure Charged (p : Pool w) (missed : List (Miss w)) : Prop where
  missed_lt : ∀ m ∈ missed, m.worker < p.workers.length
  staffed : p.Staffed
  workers : ∀ i x, p.workers[i]? = some x → Worker.Charged p.cell p.log missed i x

theorem miss?_of_none {p : Pool w} {move : Move} (hx : p.workers[move.worker]? = none) :
    p.miss? move = none := by
  rw [miss?, hx]

theorem miss?_of_some {p : Pool w} {move : Move} {x : Worker w}
    (hx : p.workers[move.worker]? = some x) :
    p.miss? move = (x.miss? p.cell move.spurious).map fun (e, f) => ⟨move.worker, e, f⟩ := by
  rw [miss?, hx]

/-- A failed attempt is the moving worker's. -/
theorem worker_of_miss? {p : Pool w} {move : Move} {m : Miss w}
    (h : m ∈ (p.miss? move).toList) : m.worker = move.worker := by
  cases hx : p.workers[move.worker]? with
  | none =>
      rw [miss?_of_none hx] at h
      exact absurd h List.not_mem_nil
  | some x =>
      rw [miss?_of_some hx] at h
      obtain ⟨attempt, -, rfl⟩ : ∃ attempt, x.miss? p.cell move.spurious = some attempt ∧
          (⟨move.worker, attempt.1, attempt.2⟩ : Miss w) = m := by simpa using h
      rfl

theorem start_charged (cell : Cell w) (jobs : List (List (Change w))) :
    Charged (start cell jobs) [] := by
  refine ⟨nofun, start_staffed cell jobs, fun i x hx => ?_⟩
  obtain ⟨job, -, rfl⟩ : ∃ job, jobs[i]? = some job ∧ Worker.start job = x := by
    simpa [start] using hx
  exact ⟨rfl, rfl, Nat.le_refl 0⟩

/-- **`step_charged`** -- a move charges a failed attempt to a change that the worker has not been
charged with. -/
theorem step_charged {p : Pool w} {missed : List (Miss w)} (h : Charged p missed) (move : Move) :
    Charged (p.step move) (missed ++ (p.miss? move).toList) := by
  cases hx : p.workers[move.worker]? with
  | none =>
      rw [step_of_none hx, miss?_of_none hx]
      simpa using h
  | some x =>
      obtain ⟨completed, x', cell, hmoves, hstep⟩ := step_of_some hx
      have hi : move.worker < p.workers.length := (List.getElem?_eq_some_iff.mp hx).1
      have hstaffed := step_staffed h.staffed move
      rw [hstep] at hstaffed ⊢
      refine ⟨?_, hstaffed, ?_⟩
      · intro m hm
        rw [List.length_set]
        rcases List.mem_append.mp hm with hbefore | hnow
        · exact h.missed_lt m hbefore
        · rw [worker_of_miss? hnow]
          exact hi
      · intro i y hy
        by_cases hsame : move.worker = i
        · subst hsame
          obtain rfl : x' = y := by simpa [List.getElem?_set_self hi] using hy
          rw [miss?_of_some hx]
          exact (h.workers _ x hx).of_moves hmoves
        · rw [List.getElem?_set_ne hsame] at hy
          refine (h.workers i y hy).of_other (fun m hm => worker_of_miss? hm ▸ hsame) ?_
          cases hmoves with
          | idle | loads | misses => exact Or.inl ⟨rfl, rfl⟩
          | fetches | swaps => exact Or.inr ⟨_, rfl, hsame⟩

end Pool

/-! ## Collecting the counts -/

namespace RetryCount

/-- **`missed`** -- the failed attempts of a schedule, in order. -/
def missed (s : RetryCount) : List Move → List (Miss .word)
  | [] => []
  | move :: schedule => (s.pool.miss? move).toList ++ (s.step move).missed schedule

/-- **`Accounted`** -- the workers are charged with the failed attempts so far, and collected are
those of the workers that have reported. -/
structure Accounted (s : RetryCount) (missed : List (Miss .word)) : Prop where
  charged : s.pool.Charged missed
  collected : s.retries.value = BitVec.ofNat _ (missed.countP fun m => m.worker ∈ s.reported)
  finished : ∀ i ∈ s.reported, ∀ x, s.pool.workers[i]? = some x → x.finished = true

theorem start_accounted (cell : WordCell) (jobs : List (List (Change .word))) :
    Accounted (start (Pool.start cell jobs)) [] :=
  ⟨Pool.start_charged cell jobs, rfl, nofun⟩

/-- The failed attempts of one worker more. -/
theorem countP_mem_cons {missed : List (Miss w)} {i : Nat} {reported : List Nat}
    (fresh : i ∉ reported) :
    (missed.countP fun m => m.worker ∈ i :: reported) =
      (missed.countP fun m => m.worker = i) + missed.countP fun m => m.worker ∈ reported := by
  induction missed with
  | nil => rfl
  | cons m missed ih =>
      simp only [List.countP_cons, ih]
      by_cases hm : m.worker = i
      · simp [hm, fresh]
        omega
      · by_cases hmem : m.worker ∈ reported
        · simp [hm, hmem]
          omega
        · simp [hm, hmem]

/-- A worker that is finished makes no attempt. -/
theorem miss?_of_finished {p : Pool w} {move : Move} {x : Worker w}
    (hx : p.workers[move.worker]? = some x) (hfinished : x.finished = true) :
    p.miss? move = none := by
  rw [Pool.miss?_of_some hx, Worker.miss?_of_idle (List.isEmpty_iff.mp hfinished), Option.map_none]

/-- **`step_accounted`** -- a move keeps the account. -/
theorem step_accounted {s : RetryCount} {missed : List (Miss .word)} (h : Accounted s missed)
    (move : Move) : Accounted (s.step move) (missed ++ (s.pool.miss? move).toList) := by
  unfold step
  cases hx : s.pool.workers[move.worker]? with
  | none =>
      rw [Pool.miss?_of_none hx]
      simpa using h
  | some x =>
      dsimp only
      by_cases hfinished : x.finished = true
      · rw [if_pos hfinished, miss?_of_finished hx hfinished, Option.toList_none, List.append_nil]
        by_cases hreported : move.worker ∈ s.reported
        · rw [if_pos hreported]
          exact h
        · rw [if_neg hreported]
          have hworker := h.charged.workers _ x hx
          refine ⟨h.charged, ?_, ?_⟩
          · show s.retries.value + BitVec.ofNat _ x.misses = _
            rw [hworker.misses, h.collected, ← BitVec.ofNat_add, countP_mem_cons hreported,
              Nat.add_comm]
          · intro i hi y hy
            rcases List.mem_cons.mp hi with rfl | hi
            · obtain rfl := Option.some.inj (hx.symm.trans hy)
              exact hfinished
            · exact h.finished i hi y hy
      · rw [if_neg hfinished]
        have hreported : move.worker ∉ s.reported := fun hmem =>
          hfinished (h.finished _ hmem x hx)
        refine ⟨Pool.step_charged h.charged move, ?_, ?_⟩
        · have hnone : (s.pool.miss? move).toList.countP (fun m => m.worker ∈ s.reported) = 0 :=
            List.countP_eq_zero.mpr fun m hm => by
              rw [Pool.worker_of_miss? hm]
              simpa using hreported
          rw [List.countP_append, hnone, Nat.add_zero]
          exact h.collected
        · intro i hi y hy
          obtain ⟨_, x', _, -, hstep⟩ := Pool.step_of_some hx
          have hother : move.worker ≠ i := fun hsame => hreported (hsame ▸ hi)
          refine h.finished i hi y ?_
          rw [← hy]
          show _ = (s.pool.step move).workers[i]?
          rw [hstep]
          exact (List.getElem?_set_ne hother).symm

/-- **`run_accounted`** -- so does a schedule. -/
theorem run_accounted {s : RetryCount} {missed : List (Miss .word)} (h : Accounted s missed)
    (schedule : List Move) : Accounted (s.run schedule) (missed ++ s.missed schedule) := by
  induction schedule generalizing s missed with
  | nil => simpa [RetryCount.missed, run] using h
  | cons move schedule ih =>
      simpa [RetryCount.missed, run, List.append_assoc] using ih (step_accounted h move)

/-- Once every worker has reported, all failed attempts are collected. -/
theorem Accounted.collected_of_finished {s : RetryCount} {missed : List (Miss .word)}
    (h : Accounted s missed) (hfinished : s.finished = true) :
    s.retries.value = BitVec.ofNat _ missed.length := by
  unfold RetryCount.finished at hfinished
  obtain ⟨-, hreported⟩ := Bool.and_eq_true_iff.mp hfinished
  have hall : ∀ m ∈ missed, decide (m.worker ∈ s.reported) = true := fun m hm =>
    List.all_eq_true.mp hreported m.worker (List.mem_range.mpr (h.charged.missed_lt m hm))
  rw [h.collected, List.countP_eq_length.mpr hall]

end RetryCount

end SharedCells
