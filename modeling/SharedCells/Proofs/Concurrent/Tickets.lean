/-
# SharedCells.Proofs.Concurrent.Tickets -- the numbers that a counter hands out

Workers that all add the same amount take a number each time: the value from before. In the order
in which the changes took effect the numbers are the initial value plus 0, 1, 2 and so many times
the amount, modulo two to the width. It makes no difference whether the amount is added, what is
missing from it to a full turn is subtracted, or a retry loop adds it.

A worker sees its own numbers only. Gathered from the workers they come in an order that depends
on the schedule; sorted, they do not.

When a number is handed out twice is a matter of the amount's order in the integers modulo two to
the width: after `2 ^ bits / gcd` changes the cell is back where it was. An odd amount runs through
all values, an even one through a part of them, and the amount 0 repeats at once.

* `Pool.tickets_eq` : the numbers in the order of effect.
* `multiples_nodup` : how many multiples of a number are different modulo another.
* `Pool.tickets_of_equal_changes` : what the workers have been handed, sorted, and repeated.
-/

import Mathlib.Algebra.Group.Nat.Defs
import Mathlib.Data.List.Induction
import Mathlib.Data.List.Nodup
import Mathlib.Data.List.Sort
import Mathlib.Data.Nat.ModEq
import SharedCells.Proofs.Concurrent.Linearization

namespace SharedCells

variable {w : Width}

/-! ## Multiples modulo a number -/

/-- **`multiples`** -- a number plus 0, 1, 2 and so many times an amount, modulo another. -/
def multiples (modulus first amount count : Nat) : List Nat :=
  (List.range count).map fun k => (first + k * amount) % modulus

theorem length_multiples (modulus first amount count : Nat) :
    (multiples modulus first amount count).length = count := by
  rw [multiples, List.length_map, List.length_range]

section Repeats

variable {modulus first amount : Nat}

/-- Two multiples agree exactly if their places agree modulo the period. -/
theorem multiple_eq_iff (hmodulus : 0 < modulus) (j k : Nat) :
    (first + j * amount) % modulus = (first + k * amount) % modulus ↔
      j % (modulus / Nat.gcd amount modulus) = k % (modulus / Nat.gcd amount modulus) := by
  rw [Nat.gcd_comm]
  constructor
  · intro heq
    have hcancel : j * amount ≡ k * amount [MOD modulus] := Nat.ModEq.add_left_cancel' first heq
    exact hcancel.cancel_right_div_gcd hmodulus
  · intro hplace
    have hperiod : j * amount ≡ k * amount [MOD modulus / Nat.gcd modulus amount * amount] :=
      Nat.ModEq.mul_right' amount hplace
    have hdvd : modulus ∣ modulus / Nat.gcd modulus amount * amount := by
      obtain ⟨factor, hfactor⟩ := Nat.gcd_dvd_right modulus amount
      refine ⟨factor, ?_⟩
      calc
        modulus / Nat.gcd modulus amount * amount
            = modulus / Nat.gcd modulus amount * (Nat.gcd modulus amount * factor) := by
              rw [← hfactor]
        _ = modulus * factor := by
              rw [← Nat.mul_assoc, Nat.div_mul_cancel (Nat.gcd_dvd_left modulus amount)]
    exact (hperiod.of_dvd hdvd).add_left first

/-- **`multiples_nodup`** -- multiples are different until the period is over. -/
theorem multiples_nodup (hmodulus : 0 < modulus) (count : Nat) :
    (multiples modulus first amount count).Nodup ↔ count ≤ modulus / Nat.gcd amount modulus := by
  have hperiod : 0 < modulus / Nat.gcd amount modulus :=
    Nat.div_pos (Nat.gcd_le_right amount hmodulus) (Nat.gcd_pos_of_pos_right amount hmodulus)
  unfold multiples
  rw [List.nodup_map_iff_inj_on List.nodup_range]
  simp only [List.mem_range, multiple_eq_iff hmodulus]
  constructor
  · intro hinjective
    -- Otherwise the place of the period and place 0 would both be there.
    by_contra hlong
    have hlast : modulus / Nat.gcd amount modulus < count := Nat.lt_of_not_le hlong
    have hzero := hinjective _ hlast 0 (Nat.lt_trans hperiod hlast)
      (by rw [Nat.mod_self, Nat.zero_mod])
    omega
  · intro hshort j hj k hk hplace
    rwa [Nat.mod_eq_of_lt (Nat.lt_of_lt_of_le hj hshort),
      Nat.mod_eq_of_lt (Nat.lt_of_lt_of_le hk hshort)] at hplace

end Repeats

/-! ## Lists in parts, and sorted -/

/-- Taken apart by a key and put together again key by key, a list has the entries it had. -/
theorem flatMap_filter_perm {α : Type} {key : α → Nat} {n : Nat} {l : List α}
    (h : ∀ a ∈ l, key a < n) :
    ((List.range n).flatMap fun i => l.filter fun a => key a = i).Perm l := by
  induction n generalizing l with
  | zero =>
      obtain rfl : l = [] :=
        List.eq_nil_iff_forall_not_mem.mpr fun a ha => Nat.not_lt_zero _ (h a ha)
      exact List.Perm.nil
  | succ n ih =>
      have hbelow := ih (l := l.filter fun a => key a < n) fun a ha => by
        simpa using (List.mem_filter.mp ha).2
      have hparts : ((List.range n).flatMap fun i => l.filter fun a => key a = i) =
          (List.range n).flatMap fun i =>
            (l.filter fun a => key a < n).filter fun a => key a = i := by
        refine List.flatMap_congr fun i hi => ?_
        have hin : i < n := List.mem_range.mp hi
        rw [List.filter_filter]
        refine List.filter_congr fun a _ => ?_
        by_cases hkey : key a = i
        · simp [hkey, hin]
        · simp [hkey]
      have hlast : (l.filter fun a => key a = n) = l.filter fun a => !decide (key a < n) := by
        refine List.filter_congr fun a ha => ?_
        have hle := h a ha
        by_cases hkey : key a = n
        · simp [hkey]
        · have hlt : key a < n := by omega
          simp [hkey, hlt]
      rw [List.range_succ, List.flatMap_append, hparts, List.flatMap_singleton, hlast]
      exact (hbelow.append_right _).trans (List.filter_append_perm _ l)

/-- Sorting forgets the order. -/
theorem mergeSort_eq_of_perm {l m : List Nat} (h : l.Perm m) : l.mergeSort = m.mergeSort := by
  have hperm : l.mergeSort.Perm m.mergeSort :=
    (List.mergeSort_perm l _).trans (h.trans (List.mergeSort_perm m _).symm)
  exact hperm.eq_of_pairwise' (List.pairwise_mergeSort' (· ≤ ·) l)
    (List.pairwise_mergeSort' (· ≤ ·) m)

/-! ## Changes by one amount -/

/-- **`Adds`** -- the change adds the amount, or subtracts what is missing from it to a full
turn. -/
def Change.Adds (amount : Value w) (c : Change w) : Prop :=
  c.amount =
    match c.kind with
    | .sub => BitVec.ofNat _ (2 ^ w.bits - amount.toNat)
    | _ => amount

instance (amount : Value w) (c : Change w) : Decidable (c.Adds amount) :=
  inferInstanceAs (Decidable (_ = _))

theorem Change.delta_of_adds {amount : Value w} {c : Change w} (h : c.Adds amount) :
    c.delta = amount := by
  obtain ⟨kind, subtracted, order⟩ := c
  cases kind with
  | sub =>
      have hneg : subtracted = -amount := by
        apply BitVec.eq_of_toNat_eq
        rw [BitVec.toNat_neg, show subtracted = _ from h, BitVec.toNat_ofNat]
      show -subtracted = amount
      rw [hneg, BitVec.neg_neg]
  | add | weak | strong | result => exact h

/-- The value after so many changes by one amount. -/
theorem valueAfter_of_adds {amount : Value w} (initial : Value w) {changes : List (Change w)}
    (h : ∀ c ∈ changes, c.Adds amount) :
    (valueAfter initial changes).toNat =
      (initial.toNat + changes.length * amount.toNat) % 2 ^ w.bits := by
  induction changes using List.reverseRecOn with
  | nil =>
      rw [valueAfter_nil, List.length_nil, Nat.zero_mul, Nat.add_zero]
      exact (Nat.mod_eq_of_lt initial.isLt).symm
  | append_singleton changes c ih =>
      have hbefore := ih fun c hc => h c (List.mem_append_left _ hc)
      have hlast : c.delta = amount :=
        Change.delta_of_adds (h c (List.mem_append_right _ List.mem_cons_self))
      rw [valueAfter_concat, hlast, BitVec.toNat_add, hbefore, Nat.mod_add_mod, List.length_append,
        List.length_singleton, Nat.succ_mul, Nat.add_assoc]

namespace Pool

/-- What a worker has been handed, in its own order. -/
def ticketsOf (p : Pool w) (i : Nat) : List (Value w) :=
  (p.order.filter fun t => t.worker = i).map Ticket.previous

/-- **`gathered`** -- what the workers have been handed, one worker after another. -/
def gathered (p : Pool w) : List (Value w) := (List.range p.workers.length).flatMap p.ticketsOf

theorem tickets_eq_map_order (p : Pool w) : p.tickets = p.order.map Ticket.previous := by
  rw [tickets, order, List.map_reverse]

theorem length_order (p : Pool w) : p.order.length = p.log.length := List.length_reverse

/-- The workers have been handed all tickets and no others. -/
theorem gathered_perm {p : Pool w} (h : p.Staffed) : p.gathered.Perm p.tickets := by
  have hstaffed : ∀ t ∈ p.order, t.worker < p.workers.length := fun t ht =>
    h t (List.mem_reverse.mp ht)
  have hparts := (flatMap_filter_perm hstaffed).map Ticket.previous
  rw [List.map_flatMap] at hparts
  rw [tickets_eq_map_order]
  exact hparts

variable {initial amount : Value w} {jobs : List (List (Change w))} {p : Pool w}

/-- All that has been completed is part of a job. -/
theorem Linearized.mem_jobs (h : Linearized initial jobs p p.order) {t : Ticket w}
    (ht : t ∈ p.order) : t.change ∈ jobs.flatten := by
  refine h.complete.mem_iff.mp (List.mem_append_left _ ?_)
  exact List.mem_map_of_mem ht

theorem Linearized.length_of_finished (h : Linearized initial jobs p p.order)
    (hfinished : p.finished = true) : p.log.length = jobs.flatten.length := by
  have hall := h.complete.length_eq
  rwa [todos_flatten_of_finished hfinished, List.append_nil, List.length_map, length_order] at hall

/-- **`tickets_eq`** -- in the order in which the changes took effect, the values from before are
the multiples of the amount above the initial value. -/
theorem Linearized.tickets_eq (h : Linearized initial jobs p p.order)
    (hadds : ∀ job ∈ jobs, ∀ c ∈ job, c.Adds amount) :
    p.tickets.map BitVec.toNat =
      multiples (2 ^ w.bits) initial.toNat amount.toNat p.log.length := by
  have hequal : ∀ t ∈ p.order, t.change.Adds amount := by
    intro t ht
    obtain ⟨job, hjob, hmem⟩ := List.mem_flatten.mp (h.mem_jobs ht)
    exact hadds job hjob _ hmem
  rw [tickets_eq_map_order, List.map_map]
  refine List.ext_getElem ?_ fun k hk _ => ?_
  · rw [length_multiples, List.length_map, length_order]
  · have hk' : k < p.order.length := by rwa [List.length_map] at hk
    have hsplit : p.order = p.order.take k ++ p.order[k] :: p.order.drop (k + 1) := by
      rw [← List.drop_eq_getElem_cons hk', List.take_append_drop]
    have hbefore : ∀ c ∈ (p.order.take k).map Ticket.change, c.Adds amount := by
      intro c hc
      obtain ⟨t, ht, rfl⟩ := List.mem_map.mp hc
      exact hequal t (List.mem_of_mem_take ht)
    have hlength : ((p.order.take k).map Ticket.change).length = k := by
      rw [List.length_map, List.length_take_of_le (Nat.le_of_lt hk')]
    simp only [multiples, List.getElem_map, List.getElem_range, Function.comp_apply]
    rw [h.previous _ _ _ hsplit, valueAfter_of_adds initial hbefore, hlength]

/-- What the workers have been handed, however they got it. -/
theorem gathered_perm_multiples (cell : Cell w)
    (hadds : ∀ job ∈ jobs, ∀ c ∈ job, c.Adds amount) (schedule : List Move) :
    let p := (start cell jobs).run schedule
    (p.gathered.map BitVec.toNat).Perm
      (multiples (2 ^ w.bits) cell.value.toNat amount.toNat p.log.length) := by
  intro p
  have hline : Linearized cell.value jobs p p.order :=
    run_step_linearized (start_linearized cell jobs) schedule
  have hstaffed : p.Staffed := run_staffed (start_staffed cell jobs) schedule
  rw [← hline.tickets_eq hadds]
  exact (gathered_perm hstaffed).map BitVec.toNat

/-- **`tickets_of_equal_changes`** -- for every cell, every amount, any number of workers that all
change the cell by it, and every schedule: once the workers are finished there is a ticket for
every change; the tickets that they have been handed are the multiples of the amount above the
initial value; sorted, they are those of any other workers, under any other schedule, that made as
many changes by the amount; and none was handed out twice exactly if the changes were no more than
two to the width over its greatest common divisor with the amount. -/
theorem tickets_of_equal_changes (cell : Cell w) (amount : Value w)
    (jobs : List (List (Change w))) (hadds : ∀ job ∈ jobs, ∀ c ∈ job, c.Adds amount)
    (schedule : List Move) :
    let p := (start cell jobs).run schedule
    let n := p.log.length
    (p.finished = true → n = jobs.flatten.length) ∧
      (p.gathered.map BitVec.toNat).Perm
        ((List.range n).map fun k => (cell.value.toNat + k * amount.toNat) % 2 ^ w.bits) ∧
      (∀ (other : Cell w) (jobs' : List (List (Change w))) (schedule' : List Move),
        other.value = cell.value → (∀ job ∈ jobs', ∀ c ∈ job, c.Adds amount) →
          let q := (start other jobs').run schedule'
          q.log.length = n →
            (q.gathered.map BitVec.toNat).mergeSort = (p.gathered.map BitVec.toNat).mergeSort) ∧
      (p.gathered.Nodup ↔ n ≤ 2 ^ w.bits / Nat.gcd amount.toNat (2 ^ w.bits)) := by
  intro p n
  have hline : Linearized cell.value jobs p p.order :=
    run_step_linearized (start_linearized cell jobs) schedule
  have hgathered := gathered_perm_multiples cell hadds schedule
  refine ⟨hline.length_of_finished, hgathered, ?_, ?_⟩
  · intro other jobs' schedule' hvalue hadds' q hlength
    have hother := gathered_perm_multiples other hadds' schedule'
    refine mergeSort_eq_of_perm (hother.trans ?_)
    rw [hvalue, hlength]
    exact hgathered.symm
  · have hinjective : Function.Injective (BitVec.toNat : Value w → Nat) := fun _ _ =>
      BitVec.eq_of_toNat_eq
    rw [← List.nodup_map_iff hinjective, hgathered.nodup_iff]
    exact multiples_nodup (Nat.two_pow_pos _) n

/-- A quarter of a turn, added, subtracted and swapped in: the fifth ticket is the first again, and
a single worker is handed the same tickets in another order. -/
theorem tickets_of_equal_changes_quarters :
    let jobs : List (List (Change .byte)) :=
      [[⟨.add, 64, .relaxed⟩, ⟨.sub, 192, .relaxed⟩], [⟨.weak, 64, .acqRel⟩, ⟨.add, 64, .relaxed⟩],
        [⟨.result, 64, .seqCst⟩]]
    let schedule : List Move :=
      [⟨1, false⟩, ⟨0, false⟩, ⟨2, false⟩, ⟨1, false⟩, ⟨2, false⟩, ⟨1, true⟩, ⟨1, false⟩,
        ⟨0, false⟩, ⟨1, false⟩]
    let p := (start ⟨0, 7⟩ jobs).run schedule
    let q : Pool .byte :=
      (start ⟨0, 7⟩ [List.replicate 5 ⟨.add, 64, .relaxed⟩]).run (List.replicate 5 ⟨0, false⟩)
    (∀ job ∈ jobs, ∀ c ∈ job, c.Adds 64) ∧ p.finished = true ∧ p.log.length = 5 ∧
      (q.gathered.map BitVec.toNat).mergeSort = (p.gathered.map BitVec.toNat).mergeSort ∧
      ¬ p.gathered.Nodup := by
  intro jobs schedule p q
  have hadds : ∀ job ∈ jobs, ∀ c ∈ job, c.Adds 64 := by decide
  obtain ⟨hall, -, hsorted, hrepeats⟩ := tickets_of_equal_changes ⟨0, 7⟩ 64 jobs hadds schedule
  have hfinished : p.finished = true := by decide
  have hfive : p.log.length = 5 := hall hfinished
  have hother : q.log.length = p.log.length := by decide
  refine ⟨hadds, hfinished, hfive, ?_, fun hdifferent => ?_⟩
  · exact hsorted ⟨0, 7⟩ _ _ rfl (by decide) hother
  · have hshort : p.log.length ≤ 4 := hrepeats.mp hdifferent
    omega

end Pool

end SharedCells
