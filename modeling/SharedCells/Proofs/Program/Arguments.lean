/-
# SharedCells.Proofs.Program.Arguments -- which arguments ask for the benchmarks

`CommandLine.bench` reads its arguments one by one, and remembers the flags it has seen. Told
without an order: it takes its flags, each at most once, and then perhaps two dashes; and a flag is
set exactly if it stands among the arguments. `AsksBench` says this of the arguments of the program,
and no other arguments name that command.

* `CommandLine.accepts_cons_iff` : one argument.
* `CommandLine.bench_ok_iff` : the arguments of `bench`.
* `CommandLine.parse_bench_iff` : the arguments of the program.
-/

import SharedCells.Proofs.Program.Options

namespace SharedCells

/-! ## One argument -/

/-- An argument with two dashes and no value is its name behind two dashes. -/
theorem Argument.eq_of_long {text name : String} (h : Argument.of text = .long name none) :
    text = "--" ++ name := by
  unfold of at h
  split at h
  case h_2 rest _ htext =>
    split at h
    · injection h with hname
      rw [← String.toList_inj, htext, ← hname]
      simp
    · injection h with _ hvalue
      exact absurd hvalue nofun
  all_goals exact absurd h nofun

/-- **`Accepts`** -- the arguments that `bench` takes after these flags: each flag that was not
given yet at most once, and then perhaps two dashes. -/
def CommandLine.BenchFlags.Accepts (flags : BenchFlags) (args : List String) : Prop :=
  ∃ given dashes, args = given ++ dashes ∧ (dashes = [] ∨ dashes = ["--"]) ∧ given.Nodup ∧
    ∀ arg ∈ given, (arg = "--quick" ∧ flags.quick = false) ∨
      (arg = "--report-only" ∧ flags.reportOnly = false)

namespace CommandLine

/-- `bench` takes an argument if it is a flag that was not given yet. -/
theorem benchStep_ok_iff {flags flags' : BenchFlags} {arg : String} :
    benchStep flags arg = .ok flags' ↔
      (arg = "--quick" ∧ flags.quick = false ∧ flags' = { flags with quick := true }) ∨
        (arg = "--report-only" ∧ flags.reportOnly = false ∧
          flags' = { flags with reportOnly := true }) := by
  constructor
  · intro h
    unfold benchStep at h
    split at h
    case h_1 hlong =>
      split at h
      case isTrue => exact absurd h nofun
      case isFalse hunset =>
        exact Or.inl ⟨Argument.eq_of_long hlong, by simpa using hunset, (Except.ok.inj h).symm⟩
    case h_2 hlong =>
      split at h
      case isTrue => exact absurd h nofun
      case isFalse hunset =>
        exact Or.inr ⟨Argument.eq_of_long hlong, by simpa using hunset, (Except.ok.inj h).symm⟩
    all_goals exact absurd h nofun
  · rintro (⟨rfl, hunset, rfl⟩ | ⟨rfl, hunset, rfl⟩)
    · have hlong : Argument.of "--quick" = .long "quick" none := by rfl
      simp [benchStep, hlong, hunset]
    · have hlong : Argument.of "--report-only" = .long "report-only" none := by rfl
      simp [benchStep, hlong, hunset]

/-- In front of accepted arguments stands one that changes the flags, and cannot be given again. -/
theorem accepts_cons_iff {flags : BenchFlags} {arg : String} {rest : List String}
    (harg : arg ≠ "--") :
    flags.Accepts (arg :: rest) ↔
      ∃ flags', benchStep flags arg = .ok flags' ∧ flags'.Accepts rest := by
  constructor
  · rintro ⟨_ | ⟨first, given⟩, dashes, heq, hdashes, hnodup, hgiven⟩
    · rcases hdashes with rfl | rfl
      · exact absurd heq nofun
      · exact absurd (List.cons.inj heq).1 harg
    · obtain ⟨rfl, rfl⟩ := List.cons.inj heq
      obtain ⟨hfirst, hlater⟩ := List.forall_mem_cons.mp hgiven
      obtain ⟨hnew, honce⟩ := List.nodup_cons.mp hnodup
      rcases hfirst with ⟨rfl, hunset⟩ | ⟨rfl, hunset⟩
      · refine ⟨_, benchStep_ok_iff.mpr (Or.inl ⟨rfl, hunset, rfl⟩), given, dashes, rfl, hdashes,
          honce, fun arg hmem => ?_⟩
        rcases hlater arg hmem with ⟨rfl, -⟩ | hother
        · exact absurd hmem hnew
        · exact Or.inr hother
      · refine ⟨_, benchStep_ok_iff.mpr (Or.inr ⟨rfl, hunset, rfl⟩), given, dashes, rfl, hdashes,
          honce, fun arg hmem => ?_⟩
        rcases hlater arg hmem with hother | ⟨rfl, -⟩
        · exact Or.inl hother
        · exact absurd hmem hnew
  · rintro ⟨flags', hstep, given, dashes, rfl, hdashes, hnodup, hgiven⟩
    refine ⟨arg :: given, dashes, rfl, hdashes, List.nodup_cons.mpr ⟨fun hmem => ?_, hnodup⟩,
      List.forall_mem_cons.mpr ?_⟩
    · have hagain := hgiven arg hmem
      rcases benchStep_ok_iff.mp hstep with ⟨rfl, -, rfl⟩ | ⟨rfl, -, rfl⟩ <;> simp at hagain
    · rcases benchStep_ok_iff.mp hstep with ⟨rfl, hunset, rfl⟩ | ⟨rfl, hunset, rfl⟩
      · refine ⟨Or.inl ⟨rfl, hunset⟩, fun other hmem => ?_⟩
        exact (hgiven other hmem).imp (fun h => absurd h.2 nofun) id
      · refine ⟨Or.inr ⟨rfl, hunset⟩, fun other hmem => ?_⟩
        exact (hgiven other hmem).imp id fun h => absurd h.2 nofun

/-- Nothing is accepted after two dashes. -/
theorem not_accepts_after_dashes {flags : BenchFlags} {rest : List String} (h : rest ≠ []) :
    ¬ flags.Accepts ("--" :: rest) := by
  rintro ⟨_ | ⟨first, given⟩, dashes, heq, hdashes, -, hgiven⟩
  · rcases hdashes with rfl | rfl
    · exact absurd heq nofun
    · exact h (List.cons.inj heq).2
  · obtain ⟨rfl, -⟩ := List.cons.inj heq
    simpa using hgiven "--" List.mem_cons_self

/-! ## All arguments -/

theorem bench_cons {flags : BenchFlags} {arg : String} {rest : List String} (harg : arg ≠ "--") :
    bench flags (arg :: rest) = (benchStep flags arg).bind fun flags' => bench flags' rest := by
  rw [bench]
  · rfl
  · exact harg

/-- **`bench_ok_iff`** -- `bench` takes what it accepts, and it is quick, or makes only the report,
exactly if that flag is among the arguments. -/
theorem bench_ok_iff {flags : BenchFlags} {args : List String} {command : Command} :
    bench flags args = .ok command ↔ flags.Accepts args ∧
      command = .bench (flags.quick || decide ("--quick" ∈ args))
        (flags.reportOnly || decide ("--report-only" ∈ args)) := by
  induction args generalizing flags with
  | nil =>
      have haccepts : flags.Accepts [] := ⟨[], [], rfl, Or.inl rfl, .nil, nofun⟩
      rw [bench]
      simp [haccepts, eq_comm]
  | cons arg rest ih =>
      by_cases hdashes : arg = "--"
      · subst hdashes
        rw [bench, bench]
        by_cases hlast : rest = []
        · subst hlast
          have haccepts : flags.Accepts ["--"] := ⟨[], ["--"], rfl, Or.inr rfl, .nil, nofun⟩
          simp [haccepts, eq_comm]
        · simp [hlast, not_accepts_after_dashes hlast]
      · rw [bench_cons hdashes, accepts_cons_iff hdashes]
        constructor
        · intro h
          obtain ⟨flags', hstep, h⟩ := Except.of_bind_ok h
          obtain ⟨haccepts, rfl⟩ := ih.mp h
          refine ⟨⟨flags', hstep, haccepts⟩, ?_⟩
          rcases benchStep_ok_iff.mp hstep with ⟨rfl, -, rfl⟩ | ⟨rfl, -, rfl⟩ <;> simp
        · rintro ⟨⟨flags', hstep, haccepts⟩, rfl⟩
          rw [hstep]
          refine ih.mpr ⟨haccepts, ?_⟩
          rcases benchStep_ok_iff.mp hstep with ⟨rfl, -, rfl⟩ | ⟨rfl, -, rfl⟩ <;> simp

/-- **`AsksBench`** -- the arguments are `bench` and arguments that it accepts. -/
def AsksBench (args : List String) : Prop :=
  ∃ rest, args = "bench" :: rest ∧ BenchFlags.Accepts ⟨false, false⟩ rest

/-- **`parse_bench_iff`** -- when the arguments name `bench`, and with which flags. -/
theorem parse_bench_iff {args : List String} {quick reportOnly : Bool} :
    parse args = .ok (.bench quick reportOnly) ↔ AsksBench args ∧
      quick = decide ("--quick" ∈ args) ∧ reportOnly = decide ("--report-only" ∈ args) := by
  constructor
  · intro h
    unfold parse at h
    split at h
    case h_2 rest =>
      obtain ⟨haccepts, heq⟩ := bench_ok_iff.mp h
      obtain ⟨rfl, rfl⟩ := Command.bench.inj heq
      exact ⟨⟨rest, rfl, haccepts⟩, by simp, by simp⟩
    case h_3 rest =>
      obtain ⟨config, hstress⟩ := stress_ok h
      exact absurd hstress nofun
    case h_5 => split at h <;> exact absurd h nofun
    all_goals exact absurd h nofun
  · rintro ⟨⟨rest, rfl, haccepts⟩, rfl, rfl⟩
    rw [parse]
    exact bench_ok_iff.mpr ⟨haccepts, by simp⟩

theorem asksBench_iff (args : List String) :
    AsksBench args ↔ ∃ quick reportOnly, parse args = .ok (.bench quick reportOnly) := by
  constructor
  · intro h
    exact ⟨_, _, parse_bench_iff.mpr ⟨h, rfl, rfl⟩⟩
  · rintro ⟨quick, reportOnly, h⟩
    exact (parse_bench_iff.mp h).1

end CommandLine

end SharedCells
