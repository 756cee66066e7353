/-
# SharedCells.Proofs.Stress.Retries -- how often the weak compare-and-swap is retried

The second check of a stress run counts its failed attempts. In any schedule, a worker's failed
attempts that were not spurious are no more than the increments of the others: each is charged to an
increment made since the worker last looked. Every worker makes a known number of increments, so
there is a bound for all of them together, and a worker on its own never retries but where the
platform spoils an attempt. This is what makes a loop without a bound of its own end.

* `Pool.Linearized.completed_le` : nobody completes more than its job.
* `StressConfig.misses_charged` : the bound for each worker, the count reported, the bound for all.
-/

import Mathlib.Algebra.Order.BigOperators.Group.Finset
import SharedCells.Proofs.Concurrent.Misses
import SharedCells.Proofs.Stress.Verdict

namespace SharedCells

variable {w : Width}

/-- Entries with a key from a set, where every key occurs a bounded number of times. -/
theorem countP_le_card_mul {α : Type} {l : List α} {p : α → Bool} (key : α → Nat) {s : Finset Nat}
    {bound : Nat} (inside : ∀ a ∈ l, p a = true → key a ∈ s)
    (each : ∀ k ∈ s, (l.countP fun a => p a = true ∧ key a = k) ≤ bound) :
    l.countP p ≤ s.card * bound := by
  have hinside : ∀ k ∈ (((l.filter p).map key : List Nat) : Multiset Nat), k ∈ s := by
    intro k hk
    obtain ⟨a, ha, rfl⟩ := List.mem_map.mp (Multiset.mem_coe.mp hk)
    obtain ⟨hmem, hp⟩ := List.mem_filter.mp ha
    exact inside a hmem hp
  have hcount (k : Nat) :
      ((l.filter p).map key).count k = l.countP fun a => p a = true ∧ key a = k := by
    rw [List.count, List.countP_map, List.countP_filter]
    refine List.countP_congr fun a _ => ?_
    simp [and_comm]
  calc
    l.countP p = ∑ k ∈ s, (((l.filter p).map key : List Nat) : Multiset Nat).count k := by
        rw [Multiset.sum_count_eq_card hinside, Multiset.coe_card, List.length_map,
          List.countP_eq_length_filter]
    _ ≤ s.card • bound := by
        refine Finset.sum_le_card_nsmul s _ bound fun k hk => ?_
        rw [Multiset.coe_count, hcount]
        exact each k hk
    _ = s.card * bound := Nat.nsmul_eq_mul ..

namespace Pool

variable {initial : Value w} {jobs : List (List (Change w))} {p : Pool w}

/-- There is a worker for every job. -/
theorem Linearized.length_workers (h : Linearized initial jobs p p.order) :
    p.workers.length = jobs.length := by
  have hsame (i : Nat) : jobs.length ≤ i ↔ p.workers.length ≤ i := by
    have hown := h.ownOrder i
    have htodos : p.todos.length = p.workers.length := List.length_map ..
    rw [← List.getElem?_eq_none_iff, hown, Option.map_eq_none_iff, List.getElem?_eq_none_iff,
      htodos]
  have hjobs := hsame jobs.length
  have hworkers := hsame p.workers.length
  omega

/-- No worker completes more changes than it has to make. -/
theorem Linearized.completed_le (h : Linearized initial jobs p p.order) {k : Nat}
    {job : List (Change w)} (hjob : jobs[k]? = some job) :
    (p.log.countP fun t => t.worker = k) ≤ job.length := by
  have hown := h.ownOrder k
  rw [hjob] at hown
  obtain ⟨todo, -, hsplit⟩ := Option.map_eq_some_iff.mp hown.symm
  have hlength : (Ticket.changesOf k p.order).length = p.log.countP fun t => t.worker = k := by
    unfold Ticket.changesOf Pool.order
    rw [List.length_map, ← List.countP_eq_length_filter, List.countP_reverse]
  rw [← hsplit, List.length_append, hlength]
  exact Nat.le_add_right _ _

end Pool

namespace StressConfig

/-- The check that bears the name of the weak compare-and-swaps. -/
theorem check_of_weakSwapCounter {config : StressConfig} {schedule : StressSchedule}
    {times : StressTimes} {check : CheckReport} (hmem : check ∈ config.checks schedule times)
    (hname : check.name = .weakSwapCounter) :
    check = .of .weakSwapCounter config.total
      (WordCell.loadSeqCst (config.swapping schedule.swaps).pool.cell) times.swaps
      (some (config.swapping schedule.swaps).retries.loadSeqCst) := by
  refine check_eq_of_name hmem ?_ hname
  simp [checks]

/-- **`missed`** -- the failed attempts of the weak compare-and-swaps under a schedule, in order. -/
def missed (config : StressConfig) (schedule : List Move) : List (Miss .word) :=
  (RetryCount.start (Pool.start ⟨0, 0⟩ (config.jobs .weak))).missed schedule

section Bounds

variable (config : StressConfig) (schedule : List Move)

theorem swapping_accounted :
    (config.swapping schedule).Accounted (config.missed schedule) := by
  have hrun := RetryCount.run_accounted
    (RetryCount.start_accounted ⟨0, 0⟩ (config.jobs .weak)) schedule
  rwa [List.nil_append] at hrun

theorem swapping_linearized :
    Pool.Linearized 0 (config.jobs .weak) (config.swapping schedule).pool
      (config.swapping schedule).pool.order :=
  RetryCount.run_pool_linearized (Pool.start_linearized ⟨0, 0⟩ (config.jobs .weak)) schedule

theorem length_jobs (kind : ChangeKind) : (config.jobs kind).length = config.threads.toNat := by
  rw [jobs, List.length_replicate]

/-- The others make no more increments than their jobs hold. -/
theorem completed_by_others_le (i : Nat) (hi : i < config.threads.toNat) :
    ((config.swapping schedule).pool.log.countP fun t => t.worker ≠ i) ≤
      (config.threads.toNat - 1) * config.iterations.toNat := by
  have hline := config.swapping_linearized schedule
  have hsize := hline.length_workers
  rw [config.length_jobs] at hsize
  have hothers : ((Finset.range config.threads.toNat).erase i).card = config.threads.toNat - 1 := by
    rw [Finset.card_erase_of_mem (Finset.mem_range.mpr hi), Finset.card_range]
  rw [← hothers]
  refine countP_le_card_mul Ticket.worker ?_ ?_
  · intro t ht hother
    have hlt := (config.swapping_accounted schedule).charged.staffed t ht
    rw [hsize] at hlt
    exact Finset.mem_erase.mpr ⟨by simpa using hother, Finset.mem_range.mpr hlt⟩
  · intro k hk
    have hk' : k < config.threads.toNat := Finset.mem_range.mp (Finset.mem_of_mem_erase hk)
    have hjob : (config.jobs .weak)[k]? =
        some (List.replicate config.iterations.toNat ⟨.weak, 1, .acqRel⟩) := by
      rw [jobs, List.getElem?_replicate_of_lt hk']
    have hcompleted := hline.completed_le hjob
    rw [List.length_replicate] at hcompleted
    refine Nat.le_trans (List.countP_mono_left fun t _ ht => ?_) hcompleted
    simpa using (of_decide_eq_true ht).2

/-- **`stale_le`** -- a worker's failed attempts that were not spurious are charged to changes of
the others. -/
theorem stale_le (i : Nat) :
    ((config.missed schedule).countP fun m => m.worker = i ∧ m.spurious = false) ≤
      (config.swapping schedule).pool.log.countP fun t => t.worker ≠ i := by
  have hcharged := (config.swapping_accounted schedule).charged
  cases hx : (config.swapping schedule).pool.workers[i]? with
  | some x =>
      have hworker := hcharged.workers i x hx
      rw [← hworker.stale]
      exact Nat.le_trans (Nat.le_add_right _ _) hworker.charged
  | none =>
      have hnobody : ((config.missed schedule).countP fun m =>
          m.worker = i ∧ m.spurious = false) = 0 := by
        refine List.countP_eq_zero.mpr fun m hm hhere => ?_
        have hlt := hcharged.missed_lt m hm
        rw [(of_decide_eq_true hhere).1] at hlt
        exact absurd hlt (Nat.not_lt.mpr (List.getElem?_eq_none_iff.mp hx))
      rw [hnobody]
      exact Nat.zero_le _

/-- All failed attempts that were not spurious. -/
theorem all_stale_le :
    ((config.missed schedule).countP fun m => m.spurious = false) ≤
      config.threads.toNat * ((config.threads.toNat - 1) * config.iterations.toNat) := by
  have hcharged := (config.swapping_accounted schedule).charged
  have hsize := (config.swapping_linearized schedule).length_workers
  rw [config.length_jobs] at hsize
  calc
    _ ≤ (Finset.range config.threads.toNat).card *
          ((config.threads.toNat - 1) * config.iterations.toNat) := by
        refine countP_le_card_mul Miss.worker ?_ ?_
        · intro m hm _
          rw [← hsize]
          exact Finset.mem_range.mpr (hcharged.missed_lt m hm)
        · intro k hk
          have hothers := config.completed_by_others_le schedule k (Finset.mem_range.mp hk)
          refine Nat.le_trans (List.countP_mono_left fun m _ hm => ?_)
            (Nat.le_trans (config.stale_le schedule k) hothers)
          simpa [and_comm] using hm
    _ = _ := by rw [Finset.card_range]

end Bounds

/-- **`misses_charged`** -- for every number of threads and iterations, every schedule and whatever
the platform spoils: a worker's failed attempts are no more than its spurious ones and the changes
that the others have made; once all workers have finished, the retries reported are all the failed
attempts, modulo the width; and if none of them was spurious there are at most as many as each
worker has increments of the others to run into, so none with one thread. -/
theorem misses_charged (config : StressConfig) (schedule : List Move) :
    let s := config.swapping schedule
    let missed := config.missed schedule
    (∀ i, (missed.countP fun m => m.worker = i) ≤
        (missed.countP fun m => m.worker = i ∧ m.spurious = true) +
          s.pool.log.countP fun t => t.worker ≠ i) ∧
      (s.finished = true → s.retries.value = BitVec.ofNat _ missed.length ∧
        ∀ adds turns times, ∀ check ∈ config.checks ⟨adds, schedule, turns⟩ times,
          check.name = .weakSwapCounter → check.retries = some (BitVec.ofNat _ missed.length)) ∧
      ((∀ m ∈ missed, m.spurious = false) →
        missed.length ≤
            config.threads.toNat * (config.threads.toNat - 1) * config.iterations.toNat ∧
          (config.threads = 1 → missed = [])) := by
  intro s missed
  refine ⟨?_, ?_, ?_⟩
  · intro i
    have hstale := config.stale_le schedule i
    rw [← countP_split, Nat.add_comm]
    exact Nat.add_le_add_left hstale _
  · intro hfinished
    have hcollected := (config.swapping_accounted schedule).collected_of_finished hfinished
    refine ⟨hcollected, ?_⟩
    intro adds turns times check hmem hname
    rw [check_of_weakSwapCounter hmem hname]
    exact congrArg some hcollected
  · intro hgenuine
    have hall : (missed.countP fun m => m.spurious = false) = missed.length :=
      List.countP_eq_length.mpr fun m hm => by simpa using hgenuine m hm
    have hbound : missed.length ≤
        config.threads.toNat * (config.threads.toNat - 1) * config.iterations.toNat := by
      rw [← hall, Nat.mul_assoc]
      exact config.all_stale_le schedule
    refine ⟨hbound, fun hone => ?_⟩
    have hthreads : config.threads.toNat = 1 := by rw [hone]; rfl
    rw [hthreads, Nat.sub_self, Nat.mul_zero, Nat.zero_mul] at hbound
    exact List.eq_nil_of_length_eq_zero (Nat.le_zero.mp hbound)

/-- Two workers that both look at the counter before either changes it. -/
def overtaking : List Move :=
  [⟨0, false⟩, ⟨1, false⟩, ⟨0, false⟩, ⟨1, false⟩, ⟨1, false⟩, ⟨0, false⟩, ⟨1, false⟩]

/-- The worker that comes second fails once, and the run reports it. -/
theorem misses_charged_overtaking :
    ((swapping ⟨2, 1, 0, none⟩ overtaking).finished = true ∧
        (swapping ⟨2, 1, 0, none⟩ overtaking).retries.value = 1) ∧
      (missed ⟨2, 1, 0, none⟩ overtaking).length = 1 ∧
      (∀ m ∈ missed ⟨2, 1, 0, none⟩ overtaking, m.spurious = false) ∧
        (missed ⟨2, 1, 0, none⟩ overtaking).length ≤ 2 * (2 - 1) * 1 := by
  have hfinished : (swapping ⟨2, 1, 0, none⟩ overtaking).finished = true := by decide
  have hgenuine : ∀ m ∈ missed ⟨2, 1, 0, none⟩ overtaking, m.spurious = false := by decide
  have hone : (missed ⟨2, 1, 0, none⟩ overtaking).length = 1 := by decide
  obtain ⟨-, hreported, hbound⟩ := misses_charged ⟨2, 1, 0, none⟩ overtaking
  have hvalue := (hreported hfinished).1
  rw [hone] at hvalue
  exact ⟨⟨hfinished, hvalue⟩, hone, hgenuine, (hbound hgenuine).1⟩

end StressConfig

end SharedCells
