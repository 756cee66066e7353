/-
# SharedCells.Proofs.Program.Options -- one argument of `stress` after another

`CommandLine.stress` reads its arguments one by one. It remembers the options it has looked at and
the one that still waits, for its value or to be looked at. `Takes` says what one argument can do:
name an option, name one with its value, or be the value of the one that waits. Any other argument
ends the reading, with success only if it is two dashes and the last one.

* `treatment` : an argument is taken, or the last one, or refused.
* `stress_ok_cons` : what it takes for the arguments to be read to their end.
* `exitCode_of_not_ok` : a refusal is an error, unless an argument asks for help.
* `timesNamed_le_one` : no option is named twice in arguments that are read to their end.
-/

import SharedCells.CommandLine

namespace SharedCells

/-- A computation in two parts succeeds only if both do. -/
theorem Except.of_bind_ok {ε α β : Type} {first : Except ε α} {next : α → Except ε β} {b : β}
    (h : first.bind next = .ok b) : ∃ a, first = .ok a ∧ next a = .ok b := by
  cases first with
  | error e => exact absurd h nofun
  | ok a => exact ⟨a, rfl, h⟩

namespace CommandLine

/-! ## Names -/

/-- **`name`** -- the name that an option is written with. -/
def StressOption.name : StressOption → String
  | threads => "threads"
  | iterations => "iterations"
  | rounds => "rounds"
  | json => "json"

theorem ofName?_name (option : StressOption) :
    StressOption.ofName? option.name = some option := by
  cases option <;> rfl

theorem eq_name_of_ofName? {name : String} {option : StressOption}
    (h : StressOption.ofName? name = some option) : name = option.name := by
  unfold StressOption.ofName? at h
  split at h
  case h_5 => exact absurd h nofun
  all_goals
    injection h with h
    rw [← h]
    rfl

theorem name_ne_help (option : StressOption) : option.name ≠ "help" := by
  cases option <;> decide

/-! ## One argument -/

variable {o o' : StressOptions} {pending pending' : Option Pending} {arg : String}
  {rest : List String} {command : Command}

/-- **`Takes`** -- what an argument does that is taken. -/
inductive Takes : StressOptions → Option Pending → String → StressOptions → Option Pending → Prop
  /-- It names an option, and the one before is looked at. -/
  | name {o o' : StressOptions} {pending : Option Pending} {arg : String} (option : StressOption)
      (hlook : Argument.of arg = .long option.name none) (hsettle : settle o pending = .ok o') :
      Takes o pending arg o' (some ⟨option, none⟩)
  /-- It names an option with its value, and both options are looked at. -/
  | joined {o o' o'' : StressOptions} {pending : Option Pending} {arg : String}
      (option : StressOption) (text : String)
      (hlook : Argument.of arg = .long option.name (some text))
      (hsettle : settle o pending = .ok o') (hgive : o'.give option (some text) = .ok o'') :
      Takes o pending arg o'' none
  /-- It is the value that an option waits for. -/
  | value {o : StressOptions} {arg : String} (option : StressOption) (text : String)
      (hlook : Argument.of arg = .plain text) :
      Takes o (some ⟨option, none⟩) arg o (some ⟨option, some text⟩)

theorem stress_name {option : StressOption} (hlook : Argument.of arg = .long option.name none) :
    stress o pending (arg :: rest) =
      (settle o pending).bind fun o' => stress o' (some ⟨option, none⟩) rest := by
  rw [stress.eq_def]
  dsimp only
  rw [hlook]
  split
  case h_2 heq => exact absurd (Argument.long.inj heq).2 nofun
  case h_3 heq =>
    obtain ⟨rfl, rfl⟩ := Argument.long.inj heq
    rw [ofName?_name]
    rfl
  all_goals contradiction

theorem stress_joined {option : StressOption} {text : String}
    (hlook : Argument.of arg = .long option.name (some text)) :
    stress o pending (arg :: rest) = (settle o pending).bind fun o' =>
      (o'.give option (some text)).bind fun o'' => stress o'' none rest := by
  rw [stress.eq_def]
  dsimp only
  rw [hlook]
  split
  case h_2 heq => exact absurd (Argument.long.inj heq).1 (name_ne_help option)
  case h_3 heq =>
    obtain ⟨rfl, rfl⟩ := Argument.long.inj heq
    rw [ofName?_name]
    rfl
  all_goals contradiction

/-- After an argument that is taken, the reading goes on. -/
theorem stress_of_takes (h : Takes o pending arg o' pending') :
    stress o pending (arg :: rest) = stress o' pending' rest := by
  cases h with
  | name option hlook hsettle =>
      rw [stress_name hlook, hsettle]
      rfl
  | joined option text hlook hsettle hgive =>
      rw [stress_joined hlook, hsettle]
      show (StressOptions.give _ _ _).bind _ = _
      rw [hgive]
      rfl
  | value option text hlook =>
      rw [stress.eq_def]
      dsimp only
      rw [hlook]

/-- **`Treatment`** -- what becomes of an argument. -/
inductive Treatment (o : StressOptions) (pending : Option Pending) (arg : String)
    (rest : List String) : Prop
  | name (option : StressOption) (hlook : Argument.of arg = .long option.name none)
  | joined (option : StressOption) (text : String)
      (hlook : Argument.of arg = .long option.name (some text))
  | value (option : StressOption) (text : String) (hlook : Argument.of arg = .plain text)
      (hpending : pending = some ⟨option, none⟩)
  /-- It is the last one, and two dashes. -/
  | dashes (hlook : Argument.of arg = .endOfOptions) (hlast : rest = [])
  | refused (e : Rejection) (h : stress o pending (arg :: rest) = .error e)
      (hhelp : e = .help → (Argument.of arg).asksHelp = true)

theorem stress_dashes (hlook : Argument.of arg = .endOfOptions) :
    stress o pending (arg :: rest) =
      if rest = [] then stress o pending [] else .error .unknownArgument := by
  rw [stress.eq_def]
  dsimp only
  rw [hlook]
  rfl

/-- A request for help waits until the option before it was looked at. -/
theorem settle_then_help (o : StressOptions) (pending : Option Pending) :
    ∃ e, ((settle o pending).bind fun _ => (.error .help : Except Rejection Command)) =
      .error e := by
  cases settle o pending with
  | error e => exact ⟨e, rfl⟩
  | ok o' => exact ⟨.help, rfl⟩

/-- A name that no option has is refused. -/
theorem stress_unknown {name : String} {value : Option String}
    (hlook : Argument.of arg = .long name value) (hname : StressOption.ofName? name = none) :
    ∃ e, stress o pending (arg :: rest) = .error e ∧
      (e = .help → (Argument.of arg).asksHelp = true) := by
  rw [stress.eq_def]
  dsimp only
  rw [hlook]
  split
  case h_2 => exact ⟨_, rfl, nofun⟩
  case h_3 hflag heq =>
    obtain ⟨rfl, rfl⟩ := Argument.long.inj heq
    rw [hname]
    by_cases hhelp : name = "help"
    · have hnone : value = none :=
        Option.eq_none_iff_forall_not_mem.mpr fun text hvalue => hflag text hhelp hvalue
      subst hhelp hnone
      exact (settle_then_help o _).imp fun e he => ⟨he, fun _ => rfl⟩
    · exact ⟨_, if_neg hhelp, nofun⟩
  all_goals contradiction

theorem stress_short {letters : List Char} (hlook : Argument.of arg = .short letters) :
    ∃ e, stress o pending (arg :: rest) = .error e ∧
      (e = .help → (Argument.of arg).asksHelp = true) := by
  rw [stress.eq_def]
  dsimp only
  rw [hlook]
  dsimp only
  split
  case isTrue hhead =>
    obtain ⟨e, he⟩ := settle_then_help o pending
    refine ⟨e, he, fun _ => ?_⟩
    obtain ⟨letters, rfl⟩ := List.head?_eq_some_iff.mp hhead
    rfl
  case isFalse => exact ⟨_, rfl, nofun⟩

theorem stress_plain {text : String} (hlook : Argument.of arg = .plain text)
    (hpending : ∀ option, pending ≠ some ⟨option, none⟩) :
    stress o pending (arg :: rest) = .error .unknownArgument := by
  rw [stress.eq_def]
  dsimp only
  rw [hlook]
  split
  case h_5 option _ => exact absurd rfl (hpending option)
  case h_6 => rfl
  all_goals contradiction

/-- **`treatment`** -- an argument that is not taken ends the reading, and with help only if it asks
for help. -/
theorem treatment (o : StressOptions) (pending : Option Pending) (arg : String)
    (rest : List String) : Treatment o pending arg rest := by
  cases hlook : Argument.of arg with
  | endOfOptions =>
      by_cases hlast : rest = []
      · exact .dashes hlook hlast
      · exact .refused _ ((stress_dashes hlook).trans (if_neg hlast)) nofun
  | long name value =>
      cases hname : StressOption.ofName? name with
      | some option =>
          rw [eq_name_of_ofName? hname] at hlook
          cases value with
          | none => exact .name option hlook
          | some text => exact .joined option text hlook
      | none =>
          obtain ⟨e, he, hhelp⟩ := stress_unknown hlook hname
          exact .refused e he hhelp
  | short letters =>
      obtain ⟨e, he, hhelp⟩ := stress_short hlook
      exact .refused e he hhelp
  | plain text =>
      by_cases hwaits : ∃ option, pending = some ⟨option, none⟩
      · obtain ⟨option, hpending⟩ := hwaits
        exact .value option text hlook hpending
      · exact .refused _ (stress_plain hlook (not_exists.mp hwaits)) nofun

/-! ## All arguments -/

/-- **`stress_ok_cons`** -- arguments are read to their end if the first one is taken, and then the
others are; or if it is two dashes, and nothing follows. -/
theorem stress_ok_cons (h : stress o pending (arg :: rest) = .ok command) :
    (∃ o' pending', Takes o pending arg o' pending' ∧ stress o' pending' rest = .ok command) ∨
      (Argument.of arg = .endOfOptions ∧ rest = [] ∧ stress o pending [] = .ok command) := by
  cases treatment o pending arg rest with
  | name option hlook =>
      rw [stress_name hlook] at h
      obtain ⟨o', hsettle, h⟩ := Except.of_bind_ok h
      exact Or.inl ⟨_, _, .name option hlook hsettle, h⟩
  | joined option text hlook =>
      rw [stress_joined hlook] at h
      obtain ⟨o', hsettle, h⟩ := Except.of_bind_ok h
      obtain ⟨o'', hgive, h⟩ := Except.of_bind_ok h
      exact Or.inl ⟨_, _, .joined option text hlook hsettle hgive, h⟩
  | value option text hlook hpending =>
      subst hpending
      rw [stress_of_takes (.value option text hlook)] at h
      exact Or.inl ⟨_, _, .value option text hlook, h⟩
  | dashes hlook hlast =>
      rw [stress_dashes hlook, if_pos hlast] at h
      exact Or.inr ⟨hlook, hlast, h⟩
  | refused e he => exact absurd (he.symm.trans h) nofun

/-- At the end the option that waits is looked at. -/
theorem stress_ok_nil (h : stress o pending [] = .ok command) :
    ∃ o', settle o pending = .ok o' ∧ command = .stress o'.config := by
  obtain ⟨o', hsettle, h⟩ := Except.of_bind_ok h
  exact ⟨o', hsettle, (Except.ok.inj h).symm⟩

/-- The arguments after `stress` never name another command. -/
theorem stress_ok {args : List String} (h : stress o pending args = .ok command) :
    ∃ config, command = .stress config := by
  induction args generalizing o pending with
  | nil =>
      obtain ⟨o', -, hcommand⟩ := stress_ok_nil h
      exact ⟨_, hcommand⟩
  | cons arg rest ih =>
      rcases stress_ok_cons h with ⟨o', pending', -, h⟩ | ⟨-, -, h⟩
      · exact ih h
      · obtain ⟨o', -, hcommand⟩ := stress_ok_nil h
        exact ⟨_, hcommand⟩

/-! ## Requests for help -/

theorem bind_ne_help {α β : Type} {first : Except Rejection α} {next : α → Except Rejection β}
    (hfirst : first ≠ .error .help) (hnext : ∀ a, next a ≠ .error .help) :
    first.bind next ≠ .error .help := by
  cases first with
  | error e =>
      intro h
      exact hfirst (congrArg Except.error (Except.error.inj h))
  | ok a => exact hnext a

/-- To look at an option is no request for help. -/
theorem give_ne_help (option : StressOption) (value : Option String) :
    o.give option value ≠ .error .help := by
  have hnumber : ∀ text, StressOptions.number text ≠ .error .help := by
    intro text
    rw [StressOptions.number]
    split <;> exact nofun
  unfold StressOptions.give
  split
  case h_1 => exact nofun
  case h_2 text =>
    split
    case isTrue => exact nofun
    case isFalse =>
      cases option with
      | json =>
          rw [StressOptions.set]
          split <;> exact nofun
      | threads => exact bind_ne_help (hnumber text) fun n => nofun
      | iterations => exact bind_ne_help (hnumber text) fun n => nofun
      | rounds => exact bind_ne_help (hnumber text) fun n => nofun

theorem settle_ne_help : settle o pending ≠ .error .help := by
  cases pending with
  | none => exact nofun
  | some p => exact give_ne_help p.option p.value

theorem stress_nil_ne_help : stress o pending [] ≠ .error .help :=
  bind_ne_help settle_ne_help fun _ => nofun

/-- **`stress_ne_help`** -- where no argument asks for help, none is given. -/
theorem stress_ne_help {args : List String}
    (hargs : ∀ arg ∈ args, (Argument.of arg).asksHelp = false) :
    stress o pending args ≠ .error .help := by
  induction args generalizing o pending with
  | nil => exact stress_nil_ne_help
  | cons arg rest ih =>
      obtain ⟨harg, hrest⟩ := List.forall_mem_cons.mp hargs
      cases treatment o pending arg rest with
      | name option hlook =>
          rw [stress_name hlook]
          exact bind_ne_help settle_ne_help fun _ => ih hrest
      | joined option text hlook =>
          rw [stress_joined hlook]
          exact bind_ne_help settle_ne_help fun _ =>
            bind_ne_help (give_ne_help option (some text)) fun _ => ih hrest
      | value option text hlook hpending =>
          rw [hpending, stress_of_takes (.value option text hlook)]
          exact ih hrest
      | dashes hlook hlast =>
          rw [stress_dashes hlook, if_pos hlast]
          exact stress_nil_ne_help
      | refused e he hhelp =>
          rw [he]
          intro heq
          rw [hhelp (Except.error.inj heq)] at harg
          exact absurd harg nofun

/-- **`exitCode_of_not_ok`** -- arguments that are not read to their end, and do not ask for
help, end the program with an error. -/
theorem exitCode_of_not_ok {args : List String}
    (hargs : ∀ arg ∈ args, (Argument.of arg).asksHelp = false)
    (h : ∀ command, stress o pending args ≠ .ok command) :
    ∃ e, stress o pending args = .error e ∧ e.exitCode = 2 := by
  have hhelp : stress o pending args ≠ .error .help := stress_ne_help hargs
  cases hstress : stress o pending args with
  | ok command => exact absurd hstress (h command)
  | error e =>
      refine ⟨e, rfl, ?_⟩
      rw [hstress] at hhelp
      cases e with
      | help => exact absurd rfl hhelp
      | _ => rfl

/-! ## Options that are named twice -/

/-- The option that an argument names. -/
def option? : Argument → Option StressOption
  | .long name _ => StressOption.ofName? name
  | _ => none

/-- **`timesNamed`** -- how often arguments name an option. -/
def timesNamed (option : StressOption) (args : List String) : Nat :=
  args.countP fun arg => option? (Argument.of arg) = some option

/-- How often an option was named: it is remembered if it was, or it still waits. -/
def held (o : StressOptions) (pending : Option Pending) (option : StressOption) : Nat :=
  (o.has option).toNat + (pending.any fun p => p.option = option).toNat

/-- An option is given one value, once. -/
theorem give_ok {option : StressOption} {value : Option String}
    (h : o.give option value = .ok o') :
    ∃ text, value = some text ∧ o.has option = false ∧ o.set option text = .ok o' := by
  unfold StressOptions.give at h
  split at h
  case h_1 => exact absurd h nofun
  case h_2 text =>
    split at h
    case isTrue => exact absurd h nofun
    case isFalse hnew => exact ⟨text, rfl, by simpa using hnew, h⟩

/-- A value that is set is remembered, and the others stay. -/
theorem has_of_set {option : StressOption} {text : String} (h : o.set option text = .ok o')
    (other : StressOption) : o'.has other = (o.has other || decide (other = option)) := by
  cases option with
  | json =>
      rw [StressOptions.set] at h
      split at h
      · exact absurd h nofun
      · obtain rfl := Except.ok.inj h
        cases other <;> simp [StressOptions.has]
  | _ =>
      obtain ⟨n, -, h⟩ := Except.of_bind_ok h
      obtain rfl := Except.ok.inj h
      cases other <;> simp [StressOptions.has]

theorem has_of_settle (h : settle o pending = .ok o') (option : StressOption) :
    (o'.has option).toNat = held o pending option := by
  cases pending with
  | none =>
      obtain rfl := Except.ok.inj h
      rfl
  | some p =>
      obtain ⟨text, -, hnew, hset⟩ := give_ok h
      rw [held, has_of_set hset]
      by_cases hoption : option = p.option
      · subst hoption
        simp [hnew]
      · simp [hoption, Ne.symm hoption]

/-- An argument that names an option names it once. -/
theorem timesNamed_of_long {named : StressOption} {value : Option String}
    (hlook : Argument.of arg = .long named.name value) (option : StressOption) :
    timesNamed option [arg] = (decide (named = option)).toNat := by
  by_cases hoption : named = option <;>
    simp [timesNamed, option?, hlook, ofName?_name, hoption]

/-- **`Takes.held_eq`** -- each time that an option is named counts once. -/
theorem Takes.held_eq (h : Takes o pending arg o' pending') (option : StressOption) :
    held o' pending' option = held o pending option + timesNamed option [arg] := by
  cases h with
  | name named hlook hsettle =>
      rw [timesNamed_of_long hlook, ← has_of_settle hsettle]
      rfl
  | joined named text hlook hsettle hgive =>
      have hgiven : settle _ (some ⟨named, some text⟩) = .ok o' := hgive
      rw [timesNamed_of_long hlook, ← has_of_settle hsettle]
      exact has_of_settle hgiven option
  | value named text hlook => simp [held, timesNamed, option?, hlook]

/-- What waits at the end was named once, too. -/
theorem held_le_one (h : stress o pending [] = .ok command) (option : StressOption) :
    held o pending option ≤ 1 := by
  obtain ⟨o', hsettle, -⟩ := stress_ok_nil h
  rw [← has_of_settle hsettle]
  exact Bool.toNat_le _

/-- **`timesNamed_le_one`** -- no option is named twice in arguments that are read to their end. -/
theorem timesNamed_le_one {args : List String} (h : stress o pending args = .ok command)
    (option : StressOption) : held o pending option + timesNamed option args ≤ 1 := by
  induction args generalizing o pending with
  | nil => exact held_le_one h option
  | cons arg rest ih =>
      have hsplit : timesNamed option ([arg] ++ rest) =
          timesNamed option [arg] + timesNamed option rest := List.countP_append
      rw [← List.singleton_append, hsplit]
      rcases stress_ok_cons h with ⟨o', pending', htakes, hrest⟩ | ⟨hlook, rfl, hend⟩
      · have hle := ih hrest
        rw [htakes.held_eq option] at hle
        omega
      · have hnone : timesNamed option [arg] = 0 := by simp [timesNamed, option?, hlook]
        rw [hnone]
        exact held_le_one hend option

end CommandLine

end SharedCells
