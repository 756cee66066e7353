/-
# SharedCells.Proofs.Stress.Verdict -- a stress run accepts the cells in every schedule

A stress run is to fail only where a cell is at fault, so it has to accept cells that work, however
its threads interleave and whatever weak attempts the platform spoils. Each check has an invariant
that no schedule breaks: the two counters hold what the completed increments add up to, and the
handshake counts the rounds that the reader released. When the threads are through, every observed
value is therefore the expected one. `StressConfig.passed` is the report that this leaves; only the
measured times and the number of retries are not fixed by the configuration.

What remains is the file. A report can be written exactly to a writable path, and it changes that
file alone; a run that ends in an error changes nothing.

* `StressConfig.checks_of_finishes` : the checks of a run whose threads finish.
* `Stress.run_accepts` : the verdict, the report and the disk, for every run.
-/

import Mathlib.Algebra.Group.Nat.Defs
import SharedCells.Proofs.Concurrent.Linearization
import SharedCells.Proofs.Concurrent.Ownership
import SharedCells.Proofs.Disk.Paths

namespace SharedCells

variable {w : Width}

/-! ## Two counters -/

theorem Change.signedTotal_replicate (n : Nat) (c : Change w) :
    signedTotal (List.replicate n c) = n * c.signed := by
  induction n with
  | zero => simp [signedTotal]
  | succ n ih =>
      rw [List.replicate_succ, signedTotal, ih, Int.natCast_succ, Int.add_mul, Int.one_mul,
        Int.add_comm]

/-- When all workers are finished, the cell holds the sum of all changes. -/
theorem Pool.Linearized.value_of_finished {initial : Value w} {jobs : List (List (Change w))}
    {p : Pool w} (h : Linearized initial jobs p p.order) (hfinished : p.finished = true) :
    p.cell.value = valueAfter initial jobs.flatten := by
  have hall : (p.order.map Ticket.change).Perm jobs.flatten := by
    simpa [todos_flatten_of_finished hfinished] using h.complete
  rw [h.value]
  exact valueAfter_perm initial hall

namespace RetryCount

open Pool (Linearized)

/-- A move that adds a count does nothing in the pool, and any other is a move of the pool. -/
theorem step_pool (s : RetryCount) (move : Move) :
    (s.step move).pool = s.pool ∨ (s.step move).pool = s.pool.step move := by
  rw [step]
  split
  case h_1 => exact Or.inl rfl
  case h_2 x hx =>
    split
    case isTrue =>
      left
      split <;> rfl
    case isFalse => exact Or.inr rfl

/-- Collecting the counts does not disturb the changes. -/
theorem run_pool_linearized {initial : Value .word} {jobs : List (List (Change .word))}
    {s : RetryCount} (h : Linearized initial jobs s.pool s.pool.order) (schedule : List Move) :
    Linearized initial jobs (s.run schedule).pool (s.run schedule).pool.order := by
  induction schedule generalizing s with
  | nil => exact h
  | cons move schedule ih =>
      refine ih (s := s.step move) ?_
      rcases s.step_pool move with hstay | hmove
      · rw [hstay]
        exact h
      · rw [hmove]
        exact Pool.step_linearized h move

end RetryCount

/-- Before the first turn the reader has not given up. -/
theorem Handshake.start_kept (rounds : Nat) : (Handshake.start rounds).Kept := by
  refine ⟨rfl, ?_⟩
  by_cases hzero : rounds = 0 <;> simp [Handshake.start, hzero]

namespace StressConfig

variable (config : StressConfig)

/-! ## What the checks observe -/

theorem total_toNat :
    config.total.toNat = config.threads.toNat * config.iterations.toNat % 2 ^ 64 :=
  BitVec.toNat_mul ..

/-- All increments together come to the total. -/
theorem valueAfter_jobs (kind : ChangeKind) (adds : kind ≠ .sub) :
    valueAfter 0 (config.jobs kind).flatten = config.total := by
  have hone : Change.signed (w := .word) ⟨kind, 1, .acqRel⟩ = 1 := by
    cases kind with
    | sub => exact absurd rfl adds
    | add | weak | strong | result => rfl
  have hsum : ((0 : Value .word).toNat : Int) +
      (config.threads.toNat * config.iterations.toNat : Nat) * 1 =
      (config.threads.toNat * config.iterations.toNat : Nat) := by simp
  rw [jobs, List.flatten_replicate_replicate, valueAfter, Change.signedTotal_replicate, hone, hsum,
    BitVec.ofInt_natCast, BitVec.ofNat_mul, BitVec.ofNat_toNat, BitVec.ofNat_toNat,
    BitVec.setWidth_eq, BitVec.setWidth_eq]
  rfl

theorem adding_value {schedule : List Move} (h : (config.adding schedule).finished = true) :
    (config.adding schedule).cell.value = config.total := by
  have hline := Pool.run_step_linearized (Pool.start_linearized ⟨0, 0⟩ (config.jobs .add)) schedule
  rw [← config.valueAfter_jobs .add nofun]
  exact hline.value_of_finished h

theorem swapping_value {schedule : List Move} (h : (config.swapping schedule).finished = true) :
    (config.swapping schedule).pool.cell.value = config.total := by
  have hstart : Pool.Linearized 0 (config.jobs .weak)
      (RetryCount.start (Pool.start ⟨0, 0⟩ (config.jobs .weak))).pool _ :=
    Pool.start_linearized ⟨0, 0⟩ (config.jobs .weak)
  have hline := RetryCount.run_pool_linearized hstart schedule
  rw [← config.valueAfter_jobs .weak nofun]
  rw [RetryCount.finished, Bool.and_eq_true] at h
  exact hline.value_of_finished h.1

theorem shaking_observed {schedule : List Turn}
    (current : ∀ turn ∈ schedule, turn.readsSlot = true)
    (h : (config.shaking schedule).finished = true) :
    (config.shaking schedule).observed = config.rounds := by
  have howned := Handshake.run_owned (Handshake.start_owned config.rounds.toNat) schedule
  obtain ⟨hkept, -⟩ :=
    Handshake.run_kept (Handshake.start_owned _) (Handshake.start_kept _) current
  have hmatched := howned.matched_of_finished hkept h
  rw [BitVec.ofNat_toNat, BitVec.setWidth_eq] at hmatched
  exact hmatched

/-! ## The report -/

/-- A check that observed what it expected. -/
def passedCheck (name : CheckName) (count : Value .word) (elapsed : Elapsed)
    (retries : Option (Value .word)) : CheckReport :=
  ⟨name, count, count, true, elapsed, retries⟩

/-- **`passed`** -- the three checks, all of them passed. The times and the retries are as
measured; everything else comes from the configuration. -/
def passed (times : StressTimes) (retries : Value .word) : List CheckReport :=
  [passedCheck .fetchAddCounter config.total times.adds none,
    passedCheck .weakSwapCounter config.total times.swaps (some retries),
    passedCheck .handshake config.rounds times.turns none]

/-- **`checks_of_finishes`** -- if the threads finish, every check passes. -/
theorem checks_of_finishes {schedule : StressSchedule} (times : StressTimes)
    (current : ∀ turn ∈ schedule.turns, turn.readsSlot = true)
    (h : config.finishes schedule = true) :
    config.checks schedule times =
      config.passed times (config.swapping schedule.swaps).retries.loadSeqCst := by
  have hof : ∀ name count elapsed retries,
      CheckReport.of name count count elapsed retries = passedCheck name count elapsed retries := by
    intro name count elapsed retries
    rw [CheckReport.of, beq_self_eq_true, passedCheck]
  rw [finishes, Bool.and_eq_true, Bool.and_eq_true] at h
  obtain ⟨⟨hadds, hswaps⟩, hturns⟩ := h
  have hadding : WordCell.loadSeqCst (config.adding schedule.adds).cell = config.total :=
    config.adding_value hadds
  have hswapping : WordCell.loadSeqCst (config.swapping schedule.swaps).pool.cell = config.total :=
    config.swapping_value hswaps
  rw [checks, hadding, hswapping, config.shaking_observed current hturns, hof, hof, hof, passed]

/-- A check that passed, as a document. -/
def checkDocument (name : CheckName) (count : Value .word) (elapsed : Elapsed)
    (more : List (String × Json Figure)) : Json Figure :=
  .object ([("name", .string name.text), ("expected", .number (.count count)),
    ("observed", .number (.count count)), ("passed", .bool true),
    ("elapsed", .number (.time elapsed))] ++ more)

/-- **`document`** -- the report with all checks passed. The members `elapsed` and `cas_retries`
are as measured; everything else comes from the configuration. -/
def document (times : StressTimes) (retries : Value .word) : Json Figure :=
  .object [("threads", .number (.count config.threads)),
    ("iterations", .number (.count config.iterations)),
    ("rounds", .number (.count config.rounds)),
    ("checks", .array
      [checkDocument .fetchAddCounter config.total times.adds [],
        checkDocument .weakSwapCounter config.total times.swaps
          [("cas_retries", .number (.count retries))],
        checkDocument .handshake config.rounds times.turns []])]

/-- **`reportText`** -- the report with all checks passed, as it is written. -/
def reportText (times : StressTimes) (retries : Value .word) : String :=
  String.ofList ((config.document times retries).pretty Figure.text 0)

theorem text_of_passed (times : StressTimes) (retries : Value .word) :
    StressReport.text ⟨config.threads, config.iterations, config.rounds,
      config.passed times retries⟩ = config.reportText times retries :=
  rfl

end StressConfig

namespace Stress

variable {config : StressConfig} {schedule : StressSchedule} {times : StressTimes} {d : Disk}

/-! ## The run -/

theorem verdict_passed (times : StressTimes) (retries : Value .word) :
    verdict (config.passed times retries) = .ok () :=
  rfl

theorem run_without_threads (h : config.threads = 0) :
    (run config schedule times d).result = .error .noThreads ∧
      (run config schedule times d).disk = d := by
  rw [run, if_pos h]
  exact ⟨rfl, rfl⟩

/-- Without a path the checks alone decide, and nothing is written. -/
theorem run_without_path (h : config.threads ≠ 0) (hjson : config.json = none) :
    (run config schedule times d).result = verdict (config.checks schedule times) ∧
      (run config schedule times d).disk = d := by
  rw [run, if_neg h, hjson]
  exact ⟨rfl, rfl⟩

/-- Otherwise the report comes first, whatever the verdict will be. -/
theorem run_with_path {path : Path} (h : config.threads ≠ 0) (hjson : config.json = some path) :
    let outcome := run config schedule times d
    let text := StressReport.text ⟨config.threads, config.iterations, config.rounds,
      config.checks schedule times⟩
    (∀ error, d.writeText path text = .error error →
        outcome.result = .error (.writing path error) ∧ outcome.disk = d) ∧
      ∀ after, d.writeText path text = .ok after →
        outcome.result = verdict (config.checks schedule times) ∧ outcome.disk = after := by
  intro outcome text
  have houtcome : outcome = run config schedule times d := rfl
  rw [run, if_neg h, hjson] at houtcome
  constructor
  · intro error herror
    dsimp only at houtcome
    rw [herror] at houtcome
    rw [houtcome]
    exact ⟨rfl, rfl⟩
  · intro after hafter
    dsimp only at houtcome
    rw [hafter] at houtcome
    rw [houtcome]
    exact ⟨rfl, rfl⟩

/-- **`run_accepts`** -- with at least one thread and for every schedule in which reads find what
the slot holds and the threads finish, whatever is spoiled: all three checks pass with their
expected values; the run succeeds without a path and with a writable one; what it then writes
depends on the schedule only in the retries; and no other file changes. Without threads, or with a
path that is not writable, the run ends in an error and the disk is as before. -/
theorem run_accepts (config : StressConfig) (schedule : StressSchedule) (times : StressTimes)
    (d : Disk) :
    let outcome := run config schedule times d
    let retries := (config.swapping schedule.swaps).retries.loadSeqCst
    (config.threads ≠ 0 → (∀ turn ∈ schedule.turns, turn.readsSlot = true) →
      config.finishes schedule = true →
        config.checks schedule times = config.passed times retries ∧
        config.total.toNat = config.threads.toNat * config.iterations.toNat % 2 ^ 64 ∧
        (config.json = none → outcome.result = .ok () ∧ outcome.disk = d) ∧
        ∀ path, config.json = some path → d.Writable path →
          outcome.result = .ok () ∧
          ∃ place, d.locate path = .ok place ∧
            outcome.disk.node? place =
              some (.file (config.reportText times retries).toUTF8) ∧
            d.SameBut place outcome.disk) ∧
      (config.threads = 0 → outcome.result = .error .noThreads ∧ outcome.disk = d) ∧
      ∀ path, config.threads ≠ 0 → config.json = some path → ¬ d.Writable path →
        ∃ error, outcome.result = .error (.writing path error) ∧ outcome.disk = d := by
  intro outcome retries
  refine ⟨?_, run_without_threads, ?_⟩
  · intro hthreads current hfinishes
    have hchecks : config.checks schedule times = config.passed times retries :=
      config.checks_of_finishes times current hfinishes
    refine ⟨hchecks, config.total_toNat, ?_, ?_⟩
    · intro hjson
      obtain ⟨hresult, hdisk⟩ := run_without_path hthreads hjson
      rw [hchecks, verdict_passed] at hresult
      exact ⟨hresult, hdisk⟩
    · intro path hjson hwritable
      obtain ⟨place, after, hplace, hwrite, hfound, hsame⟩ :=
        Disk.writeText_of_writable hwritable (config.reportText times retries)
      rw [← config.text_of_passed, ← hchecks] at hwrite
      obtain ⟨hresult, hdisk⟩ := (run_with_path hthreads hjson).2 after hwrite
      rw [hchecks, verdict_passed] at hresult
      rw [← hdisk] at hfound hsame
      exact ⟨hresult, place, hplace, hfound, hsame⟩
  · intro path hthreads hjson hwritable
    obtain ⟨error, herror⟩ := Disk.writeText_of_not_writable hwritable _
    exact ⟨error, (run_with_path hthreads hjson).1 error herror⟩

/-- Two workers that get in each other's way, a spoiled attempt, and threads of the handshake that
wait for each other: the report is written where that is possible. A path may lead out of the
working folder, up from there or down from the root. -/
theorem run_accepts_contended :
    let config : StressConfig := ⟨2, 2, 1, some "../report.json"⟩
    let astray : StressConfig := ⟨2, 2, 1, some "/out/report.json"⟩
    let read : Turn := .reader none
    let schedule : StressSchedule :=
      { adds := [⟨0, false⟩, ⟨1, false⟩, ⟨1, false⟩, ⟨0, false⟩]
        swaps := [⟨0, false⟩, ⟨1, false⟩, ⟨0, false⟩, ⟨1, false⟩, ⟨1, true⟩, ⟨1, false⟩, ⟨1, false⟩,
          ⟨0, false⟩, ⟨0, false⟩, ⟨0, false⟩, ⟨1, false⟩, ⟨1, false⟩, ⟨1, false⟩]
        turns := [read, .writer, .writer, read, .writer, read, read, read, read] }
    let d : Disk := .holding [("notes", .file ⟨#[1]⟩), ("out", .folder [])]
    (config.finishes schedule = true ∧ d.Writable "../report.json" ∧
        (run config schedule .zero d).result = .ok () ∧
        ∃ content, (run config schedule .zero d).disk.node? [Name.ofText "report.json"] =
          some (.file content)) ∧
      (¬ d.Writable "/out/report.json" ∧
        ∃ error, (run astray schedule .zero d).result =
          .error (.writing "/out/report.json" error)) := by
  intro config astray read schedule d
  have hfinishes : config.finishes schedule = true := by decide
  have hplace : d.locate "../report.json" = .ok ["report.json"] := by rfl
  have hwritable : d.Writable "../report.json" := ⟨_, hplace, nofun⟩
  have hastray : ¬ d.Writable "/out/report.json" := by
    rintro ⟨place, hplace, -⟩
    have hnowhere : d.locate "/out/report.json" = .error .notFound := by rfl
    exact absurd (hnowhere.symm.trans hplace) nofun
  have haccepts := (run_accepts config schedule .zero d).1 (by decide) (by decide) hfinishes
  have hfails := (run_accepts astray schedule .zero d).2.2 _ (by decide) rfl hastray
  obtain ⟨hresult, place, hplace', hreport, -⟩ := haccepts.2.2.2 _ rfl hwritable
  obtain rfl := Except.ok.inj (hplace.symm.trans hplace')
  obtain ⟨error, herror, -⟩ := hfails
  exact ⟨⟨hfinishes, hwritable, hresult, _, hreport⟩, hastray, error, herror⟩

end Stress

end SharedCells
