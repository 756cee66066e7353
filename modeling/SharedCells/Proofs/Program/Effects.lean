/-
# SharedCells.Proofs.Program.Effects -- what the program starts, touches and returns

A command is a list of tasks. They run one after another, and the first one that fails is the last
one that runs; so no report is made from what is left when the benchmarks failed. `TasksRun` says
this for any list of tasks, and `Command.tasks` lists those of each command. All that the program
starts, writes and returns comes from the run of these tasks, or from nothing if the arguments name
no command.

* `TasksRun.unique`, `Ran.unique` : tasks have one run, and so have arguments.
* `TasksRun.launches_length_le` : what a run starts, by its tasks.
* `Ran.launches_iff`, `Ran.disk_of_report`, `Ran.disk_untouched` : the effects, by the arguments.
* `Program.run_effects` : the benchmark program, the disk and the exit code, for all arguments.
-/

import SharedCells.Program
import SharedCells.Proofs.Program.Arguments

namespace SharedCells

/-! ## Tasks -/

/-- **`Task`** -- what commands are made of. -/
inductive Task where
  | benchmarks (quick : Bool)
  | report
  | stress (config : StressConfig)

/-- The tasks of a command, in their order. -/
def Command.tasks : Command → List Task
  | bench quick false => [.benchmarks quick, .report]
  | bench _ true => [.report]
  | stress config => [.stress config]

/-- Does the task need the benchmark program? -/
def Task.needsProgram : Task → Bool
  | benchmarks _ => true
  | report | stress _ => false

/-- No command needs the benchmark program twice. -/
theorem Command.countP_needsProgram_le (command : Command) :
    command.tasks.countP Task.needsProgram ≤ 1 := by
  cases command with
  | bench quick reportOnly => cases reportOnly <;> decide +revert
  | stress config => exact Nat.zero_le 1

/-- **`Task.Does w d task result launches d'`** -- on the disk `d` the task ends with the result,
after it started the benchmark program as listed, and leaves `d'`. -/
inductive Task.Does (w : World) (d : Disk) :
    Task → Except Failure Unit → List Launch → Disk → Prop
  | missing {quick : Bool} (absent : w.child = none) :
      Does w d (.benchmarks quick) (.error (.launching Benchmark.name .notFound)) [] d
  | passed {quick : Bool} (ended : w.child = some (.exited 0)) :
      Does w d (.benchmarks quick) (.ok ()) [Benchmark.launch quick] d
  | failed {quick : Bool} {status : ChildStatus} (ended : w.child = some status)
      (bad : status ≠ .exited 0) :
      Does w d (.benchmarks quick) (.error (.benchFailed Benchmark.name status))
        [Benchmark.launch quick] d
  | reported : Does w d .report (Report.generate d).result [] (Report.generate d).disk
  | stressed {config : StressConfig} :
      Does w d (.stress config) (Stress.run config (w.schedule config) w.times d).result []
        (Stress.run config (w.schedule config) w.times d).disk

/-- **`TasksRun w d tasks results launches d'`** -- the tasks run one after another from the disk
`d` to the disk `d'`, up to the first that fails. There is one result for each task that ran. -/
inductive TasksRun (w : World) :
    Disk → List Task → List (Except Failure Unit) → List Launch → Disk → Prop
  | done {d : Disk} : TasksRun w d [] [] [] d
  | stops {d d' : Disk} {task : Task} {tasks : List Task} {failure : Failure}
      {launches : List Launch} (does : task.Does w d (.error failure) launches d') :
      TasksRun w d (task :: tasks) [.error failure] launches d'
  | goesOn {d d' d'' : Disk} {task : Task} {tasks : List Task}
      {results : List (Except Failure Unit)} {launches later : List Launch}
      (does : task.Does w d (.ok ()) launches d') (rest : TasksRun w d' tasks results later d'') :
      TasksRun w d (task :: tasks) (.ok () :: results) (launches ++ later) d''

section Runs

variable {w : World} {d d₁ d₂ : Disk} {task : Task} {tasks : List Task}
  {result result₁ result₂ : Except Failure Unit}
  {results results₁ results₂ : List (Except Failure Unit)}
  {launches launches₁ launches₂ : List Launch}

/-- A task does one thing on a disk. -/
theorem Task.Does.unique (h₁ : task.Does w d result₁ launches₁ d₁)
    (h₂ : task.Does w d result₂ launches₂ d₂) :
    result₁ = result₂ ∧ launches₁ = launches₂ ∧ d₁ = d₂ := by
  cases h₁ <;> cases h₂ <;> simp_all

/-- Tasks have one run on a disk. -/
theorem TasksRun.unique (h₁ : TasksRun w d tasks results₁ launches₁ d₁)
    (h₂ : TasksRun w d tasks results₂ launches₂ d₂) :
    results₁ = results₂ ∧ launches₁ = launches₂ ∧ d₁ = d₂ := by
  induction h₁ generalizing results₂ launches₂ d₂ with
  | done =>
      cases h₂
      exact ⟨rfl, rfl, rfl⟩
  | stops does =>
      cases h₂ with
      | stops does' =>
          obtain ⟨hresult, rfl, rfl⟩ := does.unique does'
          exact ⟨by rw [hresult], rfl, rfl⟩
      | goesOn does' => exact absurd (does.unique does').1 nofun
  | goesOn does rest ih =>
      cases h₂ with
      | stops does' => exact absurd (does.unique does').1 nofun
      | goesOn does' rest' =>
          obtain ⟨-, rfl, rfl⟩ := does.unique does'
          obtain ⟨rfl, rfl, rfl⟩ := ih rest'
          exact ⟨rfl, rfl, rfl⟩

/-- A task starts the benchmark program at most once, and only if it needs it. -/
theorem Task.Does.launches_length_le (h : task.Does w d result launches d₁) :
    launches.length ≤ if task.needsProgram then 1 else 0 := by
  cases h <;> simp [needsProgram]

/-- The benchmark program is started at most once for each task that needs it. -/
theorem TasksRun.launches_length_le (h : TasksRun w d tasks results launches d₁) :
    launches.length ≤ tasks.countP Task.needsProgram := by
  induction h with
  | done => exact Nat.le_refl 0
  | stops does =>
      rw [List.countP_cons]
      have hfirst := does.launches_length_le
      omega
  | goesOn does rest ih =>
      rw [List.countP_cons, List.length_append]
      have hfirst := does.launches_length_le
      omega

/-- A single task is a run whether it succeeds or not. -/
theorem TasksRun.single (does : task.Does w d result launches d₁) :
    TasksRun w d [task] [result] launches d₁ := by
  cases result with
  | error failure => exact .stops does
  | ok =>
      have h : TasksRun w d [task] [.ok ()] (launches ++ []) d₁ := .goesOn does .done
      rwa [List.append_nil] at h

/-- A run of a single task is what the task does. -/
theorem TasksRun.does_of_single (h : TasksRun w d [task] results launches d₁) :
    ∃ result, results = [result] ∧ task.Does w d result launches d₁ := by
  cases h with
  | stops does => exact ⟨_, rfl, does⟩
  | goesOn does rest =>
      cases rest
      rw [List.append_nil]
      exact ⟨_, rfl, does⟩

/-- What a run of `bench` starts, and what disk it leaves: the report is made if it alone is wanted
or if the benchmarks passed, and otherwise nothing is touched. -/
theorem TasksRun.bench_effects {quick reportOnly : Bool}
    (h : TasksRun w d (Command.bench quick reportOnly).tasks results launches d₁) :
    (launches ≠ [] ↔ reportOnly = false ∧ w.child ≠ none) ∧
      d₁ = if reportOnly = true ∨ w.child = some (.exited 0) then (Report.generate d).disk
        else d := by
  cases reportOnly with
  | true =>
      obtain ⟨_, -, does⟩ := h.does_of_single
      cases does
      simp
  | false =>
      cases h with
      | stops does =>
          cases does with
          | missing absent => simp [absent]
          | failed ended bad =>
              have hbad : ¬ (false = true ∨ w.child = some (.exited 0)) := by
                simpa [ended] using bad
              exact ⟨by simp [ended], (if_neg hbad).symm⟩
      | goesOn does rest =>
          cases does with
          | passed ended =>
              obtain ⟨_, -, does⟩ := rest.does_of_single
              cases does
              simp [ended]

/-- A stress run starts nothing, and leaves what its checks leave. -/
theorem TasksRun.stress_effects {config : StressConfig}
    (h : TasksRun w d (Command.stress config).tasks results launches d₁) :
    launches = [] ∧ d₁ = (Stress.run config (w.schedule config) w.times d).disk := by
  obtain ⟨_, -, does⟩ := h.does_of_single
  cases does
  exact ⟨rfl, rfl⟩

end Runs

/-! ## The arguments -/

/-- **`Ran`** -- the arguments name a command whose tasks ran, or they name none and nothing was
done. -/
inductive Ran (args : List String) (w : World) :
    List (Except Failure Unit) → List Launch → Disk → Prop
  | accepted {command : Command} {results : List (Except Failure Unit)} {launches : List Launch}
      {d : Disk} (parsed : CommandLine.parse args = .ok command)
      (runs : TasksRun w w.disk command.tasks results launches d) : Ran args w results launches d
  | rejected {rejection : Rejection} (parsed : CommandLine.parse args = .error rejection) :
      Ran args w [] [] w.disk

namespace Ran

open CommandLine (parse AsksBench asksBench_iff parse_bench_iff)

variable {args : List String} {w : World} {results results' : List (Except Failure Unit)}
  {launches launches' : List Launch} {d d' : Disk}

/-- Arguments have one run in a world. -/
theorem unique (h : Ran args w results launches d) (h' : Ran args w results' launches' d') :
    results = results' ∧ launches = launches' ∧ d = d' := by
  cases h with
  | accepted parsed runs =>
      cases h' with
      | accepted parsed' runs' =>
          obtain rfl := Except.ok.inj (parsed.symm.trans parsed')
          exact runs.unique runs'
      | rejected parsed' => exact absurd (parsed.symm.trans parsed') nofun
  | rejected parsed =>
      cases h' with
      | accepted parsed' => exact absurd (parsed.symm.trans parsed') nofun
      | rejected => exact ⟨rfl, rfl, rfl⟩

/-- The benchmark program is started at most once. -/
theorem launches_length_le (h : Ran args w results launches d) : launches.length ≤ 1 := by
  cases h with
  | accepted parsed runs =>
      exact Nat.le_trans runs.launches_length_le (Command.countP_needsProgram_le _)
  | rejected => exact Nat.zero_le 1

theorem bench_effects (h : Ran args w results launches d) (asks : AsksBench args) :
    (launches ≠ [] ↔ "--report-only" ∉ args ∧ w.child ≠ none) ∧
      d = if "--report-only" ∈ args ∨ w.child = some (.exited 0) then (Report.generate w.disk).disk
        else w.disk := by
  have hbench := parse_bench_iff.mpr ⟨asks, rfl, rfl⟩
  cases h with
  | accepted parsed runs =>
      obtain rfl := Except.ok.inj (parsed.symm.trans hbench)
      simpa using runs.bench_effects
  | rejected parsed => exact absurd (parsed.symm.trans hbench) nofun

theorem stress_effects {config : StressConfig} (h : Ran args w results launches d)
    (asks : parse args = .ok (.stress config)) :
    launches = [] ∧ d = (Stress.run config (w.schedule config) w.times w.disk).disk := by
  cases h with
  | accepted parsed runs =>
      obtain rfl := Except.ok.inj (parsed.symm.trans asks)
      exact runs.stress_effects
  | rejected parsed => exact absurd (parsed.symm.trans asks) nofun

/-- Arguments that ask for neither command have no effect. -/
theorem no_effects (h : Ran args w results launches d) (hbench : ¬ AsksBench args)
    (hstress : ∀ config, parse args ≠ .ok (.stress config)) : launches = [] ∧ d = w.disk := by
  cases h with
  | @accepted command _ _ _ parsed =>
      cases command with
      | bench quick reportOnly =>
          exact absurd ((asksBench_iff args).mpr ⟨quick, reportOnly, parsed⟩) hbench
      | stress config => exact absurd parsed (hstress config)
  | rejected => exact ⟨rfl, rfl⟩

/-- When the benchmark program is started. -/
theorem launches_iff (h : Ran args w results launches d) :
    launches ≠ [] ↔ AsksBench args ∧ "--report-only" ∉ args ∧ w.child ≠ none := by
  by_cases hbench : AsksBench args
  · simp only [hbench, true_and]
    exact (h.bench_effects hbench).1
  · have hnone : launches = [] := by
      by_cases hstress : ∃ config, parse args = .ok (.stress config)
      · obtain ⟨config, hparse⟩ := hstress
        exact (h.stress_effects hparse).1
      · exact (h.no_effects hbench fun config hparse => hstress ⟨config, hparse⟩).1
    simp [hbench, hnone]

/-- The report is made if it alone is wanted, or if the benchmarks passed. -/
theorem disk_of_report (h : Ran args w results launches d) (asks : AsksBench args)
    (ready : "--report-only" ∈ args ∨ w.child = some (.exited 0)) :
    d = (Report.generate w.disk).disk :=
  (h.bench_effects asks).2.trans (if_pos ready)

/-- Without a report and a stress run nothing on the disk is touched. -/
theorem disk_untouched (h : Ran args w results launches d)
    (hstress : ∀ config, parse args ≠ .ok (.stress config))
    (hreport : ¬ (AsksBench args ∧ ("--report-only" ∈ args ∨ w.child = some (.exited 0)))) :
    d = w.disk := by
  by_cases hbench : AsksBench args
  · exact (h.bench_effects hbench).2.trans (if_neg fun ready => hreport ⟨hbench, ready⟩)
  · exact (h.no_effects hbench hstress).2

end Ran

/-! ## The program -/

/-- A status is a success exactly if it is the exit code 0. -/
theorem ChildStatus.success_iff {status : ChildStatus} :
    status.success = true ↔ status = .exited 0 := by
  cases status <;> simp [success]

/-- Running the benchmarks is a task. -/
theorem Benchmark.run_does (quick : Bool) (w : World) (d : Disk) :
    (Task.benchmarks quick).Does w d (run quick w.child).result
      (run quick w.child).launch.toList d := by
  unfold run
  split
  case h_1 absent => exact .missing absent
  case h_2 status ended =>
    split
    case isTrue hsuccess =>
      rw [ChildStatus.success_iff.mp hsuccess] at ended
      exact .passed ended
    case isFalse hfailure => exact .failed ended (mt ChildStatus.success_iff.mpr hfailure)

namespace Program

open CommandLine (parse AsksBench asksBench_iff)

/-- The exit code of tasks with these results. -/
def codeOf (results : List (Except Failure Unit)) : Nat :=
  if results.all (·.isOk) then 0 else 1

theorem codeOf_ok_cons (results : List (Except Failure Unit)) :
    codeOf (.ok () :: results) = codeOf results := by
  simp [codeOf, Except.isOk, Except.toBool]

section ExitOf

variable (launch : Option Launch) (earlier : List Event) (o : Outcome)

theorem exitOf_code : (exitOf launch earlier o).code = codeOf [o.result] := by
  unfold exitOf
  split
  case h_1 hok => simp [codeOf, hok, Except.isOk, Except.toBool]
  case h_2 failure hfailed => simp [codeOf, hfailed, Except.isOk, Except.toBool]

theorem exitOf_disk : (exitOf launch earlier o).disk = o.disk := by
  unfold exitOf
  split <;> rfl

theorem exitOf_launch : (exitOf launch earlier o).launch = launch := by
  unfold exitOf
  split <;> rfl

end ExitOf

variable {args : List String} {w : World}

/-- The command `bench` runs its tasks. -/
theorem bench_tasks (quick reportOnly : Bool) (w : World) :
    ∃ results, TasksRun w w.disk (Command.bench quick reportOnly).tasks results
        (bench quick reportOnly w).launch.toList (bench quick reportOnly w).disk ∧
      (bench quick reportOnly w).code = codeOf results := by
  cases reportOnly with
  | true =>
      rw [bench, if_pos rfl, exitOf_disk, exitOf_launch, exitOf_code]
      exact ⟨_, .single .reported, rfl⟩
  | false =>
      have does := Benchmark.run_does quick w w.disk
      rw [bench, if_neg nofun]
      dsimp only
      split
      case h_1 passed =>
        rw [exitOf_disk, exitOf_launch, exitOf_code]
        rw [passed] at does
        have runs := TasksRun.goesOn does (.single .reported)
        rw [List.append_nil] at runs
        exact ⟨_, runs, (codeOf_ok_cons _).symm⟩
      case h_2 failure failed =>
        rw [exitOf_disk, exitOf_launch, exitOf_code]
        rw [failed] at does
        exact ⟨_, .stops does, rfl⟩

/-- The program runs the tasks of the command. -/
theorem run_tasks {command : Command} (h : parse args = .ok command) :
    ∃ results, TasksRun w w.disk command.tasks results (run args w).launch.toList
        (run args w).disk ∧ (run args w).code = codeOf results := by
  unfold run
  rw [h]
  cases command with
  | bench quick reportOnly => exact bench_tasks quick reportOnly w
  | stress config =>
      dsimp only [stress]
      rw [exitOf_disk, exitOf_launch, exitOf_code]
      exact ⟨_, .single .stressed, rfl⟩

theorem codeOf_eq_zero_iff {results : List (Except Failure Unit)} :
    codeOf results = 0 ↔ ∀ result ∈ results, result.isOk = true := by
  simp [codeOf]

theorem codeOf_cases (results : List (Except Failure Unit)) :
    codeOf results = 0 ∨ codeOf results = 1 := by
  unfold codeOf
  split
  · exact Or.inl rfl
  · exact Or.inr rfl

/-- What the program does for its arguments, and the exit code that comes of it. -/
theorem run_ran (args : List String) (w : World) :
    ∃ results, Ran args w results (run args w).launch.toList (run args w).disk ∧
      (((∃ command, parse args = .ok command) ∧ (run args w).code = codeOf results) ∨
        ∃ rejection, parse args = .error rejection ∧ results = [] ∧
          (run args w).code = rejection.exitCode) := by
  cases hparse : parse args with
  | ok command =>
      obtain ⟨results, runs, hcode⟩ := run_tasks (w := w) hparse
      exact ⟨results, .accepted hparse runs, Or.inl ⟨⟨command, rfl⟩, hcode⟩⟩
  | error rejection =>
      have hrun : run args w = ⟨rejection.exitCode, none, w.disk, none, []⟩ := by rw [run, hparse]
      rw [hrun]
      exact ⟨[], .rejected hparse, Or.inr ⟨rejection, rfl, rfl, rfl⟩⟩

/-- **`run_effects`** -- what the program starts, touches and returns.

For all arguments, disks and ends of the benchmark program: the tasks of the command run one after
another up to the first that fails. The benchmark program is started at most once, and exactly if
`bench` without `--report-only` was asked for and there is such a program. The disk is the one that
the report leaves if it alone was asked for or the benchmarks passed, the one that a stress run
leaves, and the same as before in all other cases. The exit code says whether the arguments were
rejected, and else whether a task failed. -/
theorem run_effects (args : List String) (w : World) :
    let e := run args w
    ∃ results launches, Ran args w results launches e.disk ∧
      (∀ results' launches' d, Ran args w results' launches' d →
        results' = results ∧ launches' = launches ∧ d = e.disk) ∧
      e.launch.toList = launches ∧ launches.length ≤ 1 ∧
      (AsksBench args ↔ ∃ quick reportOnly, parse args = .ok (.bench quick reportOnly)) ∧
      (launches ≠ [] ↔ AsksBench args ∧ "--report-only" ∉ args ∧ w.child ≠ none) ∧
      (AsksBench args → "--report-only" ∈ args ∨ w.child = some (.exited 0) →
        e.disk = (Report.generate w.disk).disk) ∧
      (∀ config, parse args = .ok (.stress config) →
        e.disk = (Stress.run config (w.schedule config) w.times w.disk).disk) ∧
      ((∀ config, parse args ≠ .ok (.stress config)) →
        ¬ (AsksBench args ∧ ("--report-only" ∈ args ∨ w.child = some (.exited 0))) →
        e.disk = w.disk) ∧
      (e.code = 0 ↔ (parse args = .error .help ∨ ∃ command, parse args = .ok command) ∧
        ∀ result ∈ results, result.isOk = true) ∧
      (e.code = 2 ↔ ∃ rejection, rejection ≠ .help ∧ parse args = .error rejection) ∧
      (e.code ≠ 0 → e.code ≠ 2 → e.code = 1) := by
  intro e
  obtain ⟨results, ran, hcode⟩ := run_ran args w
  refine ⟨results, _, ran, fun _ _ _ other => other.unique ran, rfl, ran.launches_length_le,
    asksBench_iff args, ran.launches_iff, ran.disk_of_report,
    fun config hparse => (ran.stress_effects hparse).2, ran.disk_untouched, ?_⟩
  rcases hcode with ⟨⟨command, hparse⟩, hcode⟩ | ⟨rejection, hparse, rfl, hcode⟩
  · have hcodes : e.code = 0 ∨ e.code = 1 := by
      rw [hcode]
      exact codeOf_cases results
    have hzero : e.code = 0 ↔ ∀ result ∈ results, result.isOk = true := by
      rw [hcode, codeOf_eq_zero_iff]
    have htwo : e.code ≠ 2 := by omega
    simp only [hparse]
    exact ⟨by simp [hzero], by simp [htwo], by omega⟩
  · have hcode' : e.code = rejection.exitCode := hcode
    simp only [hparse, hcode']
    cases rejection <;> simp [Rejection.exitCode]

/-- Something is left of an earlier run when the benchmarks fail: no report is made of it, unless
only the report is asked for. -/
theorem run_effects_failed_benchmark :
    let w : World :=
      { disk := .holding [("target", .folder [("criterion", .folder [])])]
        child := some (.exited 101)
        schedule := StressConfig.inTurn
        times := .zero }
    let failed := run ["bench"] w
    let reported := run ["bench", "--report-only"] w
    (failed.disk = w.disk ∧ failed.launch.toList ≠ [] ∧ failed.code = 1) ∧
      reported.disk = (Report.generate w.disk).disk ∧ reported.launch.toList = [] := by
  intro w failed reported
  have hfailed : parse ["bench"] = .ok (.bench false false) := by cbv
  have hreported : parse ["bench", "--report-only"] = .ok (.bench false true) := by cbv
  obtain ⟨_, _, -, -, rfl, -, hasks, hstarted, -, -, hkept, -⟩ := run_effects ["bench"] w
  obtain ⟨_, _, -, -, rfl, -, hasks', hskipped, hreport, -⟩ :=
    run_effects ["bench", "--report-only"] w
  have hcode : failed.code = 1 := by
    simp only [failed, run, hfailed]
    rfl
  refine ⟨⟨hkept (by simp [hfailed]) (by simp [w]), ?_, hcode⟩,
    hreport (hasks'.mpr ⟨_, _, hreported⟩) (by simp), ?_⟩
  · exact hstarted.mpr ⟨hasks.mpr ⟨_, _, hfailed⟩, by simp, by simp [w]⟩
  · have hnone : ¬ reported.launch.toList ≠ [] := by
      intro hlaunched
      exact (hskipped.mp hlaunched).2.1 (by simp)
    exact Classical.not_not.mp hnone

end Program

end SharedCells
