/-
# SharedCells.Proofs.Program.Configuration -- a configuration written as arguments and read back

A configuration of `stress` is written option by option, in any order, each with its value behind an
equals sign or as an argument of its own; an option may be left out if its value is the default.
Reading such arguments is nothing but to give the options their values one after another:
`stress_written` is an equation, and holds for values that are refused as well. From it come both
the way back to the configuration and the refusal of numbers that do not fit. The refusal of an
option that is named twice is more general, and comes from the count of the names.

* `stress_written` : the arguments are looked at in their order, with no other effect.
* `giveAll_only` : from what was written of a configuration to more of it.
* `exitCode_of_repeated` : an option that is named twice is an error.
* `parse_written` : the way back, and what is refused.
-/

import Mathlib.Algebra.Group.Nat.Defs
import SharedCells.Proofs.Program.Options
import SharedCells.Proofs.Text.Cut

namespace SharedCells

/-! ## How arguments look -/

namespace Argument

/-- Behind two dashes stands a name, and its value if there is an equals sign. -/
theorem of_dashes {text : String} {rest : List Char} (htext : text.toList = '-' :: '-' :: rest)
    (hne : rest ≠ []) : Argument.of text =
      match rest.dropWhile (· ≠ '=') with
      | [] => .long (String.ofList rest) none
      | _ :: value =>
        .long (String.ofList (rest.takeWhile (· ≠ '='))) (some (String.ofList value)) := by
  unfold Argument.of
  rw [htext]
  cases rest with
  | nil => exact absurd rfl hne
  | cons c rest => rfl

theorem of_joined {name : String} (h : '=' ∉ name.toList) (value : String) :
    Argument.of ("--" ++ name ++ "=" ++ value) = .long name (some value) := by
  have htext : ("--" ++ name ++ "=" ++ value).toList =
      '-' :: '-' :: (name.toList ++ '=' :: value.toList) := by simp
  rw [of_dashes htext (by simp), Text.dropWhile_ne h, Text.takeWhile_ne h]
  dsimp only
  rw [String.ofList_toList, String.ofList_toList]

theorem of_name {name : String} (h : '=' ∉ name.toList) (hne : name ≠ "") :
    Argument.of ("--" ++ name) = .long name none := by
  have htext : ("--" ++ name).toList = '-' :: '-' :: name.toList := by simp
  rw [of_dashes htext (by simpa using hne), Text.dropWhile_ne_nil h]
  dsimp only
  rw [String.ofList_toList]

theorem of_plain {text : String} (h : text.toList.head? ≠ some '-') :
    Argument.of text = .plain text := by
  unfold Argument.of
  split
  case h_4 => rfl
  all_goals
    next heq => exact absurd (by rw [heq]; rfl) h

end Argument

/-! ## Numbers -/

/-- A numeral has no sign. -/
theorem Numeral.readBelow?_of_ofDigits? {bound n : Nat} {cs : List Char}
    (h : ofDigits? cs = some n) : readBelow? bound cs = (some n).filter (· < bound) := by
  have hsign : ∀ rest, cs ≠ '+' :: rest := by
    rintro rest rfl
    simp [ofDigits?] at h
  unfold readBelow?
  split
  case h_1 rest => exact absurd rfl (hsign rest)
  case h_2 =>
    dsimp only
    rw [h]

namespace CommandLine

variable {o o' : StressOptions} {pending : Option Pending}

namespace StressOptions

theorem number_of_numeral {text : String} {n : Value .word}
    (h : Numeral.ofDigits? text.toList = some n.toNat) : number text = .ok n := by
  have hlt : n.toNat < 1 <<< 64 := n.isLt
  rw [number, Numeral.readBelow?_of_ofDigits? h, Option.filter_some, if_pos (by simpa using hlt)]
  simp

theorem number_of_huge {text : String} {n : Nat} (h : Numeral.ofDigits? text.toList = some n)
    (hn : 2 ^ 64 ≤ n) : number text = .error .badNumber := by
  have hge : ¬ n < 1 <<< 64 := Nat.not_lt.mpr hn
  rw [number, Numeral.readBelow?_of_ofDigits? h, Option.filter_some, if_neg (by simpa using hge)]

end StressOptions

/-! ## Options with their values -/

/-- **`Written`** -- an option with its value, as it is written out. -/
structure Written where
  option : StressOption
  value : String
  /-- Does the value stand behind an equals sign? If not, it is an argument of its own. -/
  joined : Bool

namespace Written

/-- The arguments. -/
def args (w : Written) : List String :=
  if w.joined then ["--" ++ w.option.name ++ "=" ++ w.value]
  else ["--" ++ w.option.name, w.value]

/-- A value that is an argument of its own does not begin with a dash. -/
def Sound (w : Written) : Prop := w.joined = false → w.value.toList.head? ≠ some '-'

/-- **`Gives`** -- the value is the one of the configuration, a number as any numeral for it. -/
def Gives (w : Written) (config : StressConfig) : Prop :=
  match w.option with
  | .threads => Numeral.ofDigits? w.value.toList = some config.threads.toNat
  | .iterations => Numeral.ofDigits? w.value.toList = some config.iterations.toNat
  | .rounds => Numeral.ofDigits? w.value.toList = some config.rounds.toNat
  | .json => config.json = some (.ofText w.value)

end Written

/-- The configuration has the default of an option. -/
def HasDefault (config : StressConfig) : StressOption → Prop
  | .threads => config.threads = 8
  | .iterations => config.iterations = 100000
  | .rounds => config.rounds = 200000
  | .json => config.json = none

/-- **`Spells`** -- options that make up a configuration: each at most once, each with its value,
and the others have their defaults. -/
structure Spells (ws : List Written) (config : StressConfig) : Prop where
  once : (ws.map Written.option).Nodup
  gives : ∀ w ∈ ws, w.Gives config
  others : ∀ option, option ∉ ws.map Written.option → HasDefault config option

theorem equals_not_mem_name (option : StressOption) : '=' ∉ option.name.toList := by
  cases option <;> decide

theorem name_ne_empty (option : StressOption) : option.name ≠ "" := by
  cases option <;> decide

/-- How the arguments of an option look: its name with the value, or its name and then a plain
value. -/
theorem Written.args_eq {w : Written} (h : w.Sound) :
    (∃ arg, w.args = [arg] ∧ Argument.of arg = .long w.option.name (some w.value)) ∨
      ∃ arg, w.args = [arg, w.value] ∧ Argument.of arg = .long w.option.name none ∧
        Argument.of w.value = .plain w.value := by
  unfold Written.args
  cases hjoined : w.joined with
  | true => exact Or.inl ⟨_, rfl, Argument.of_joined (equals_not_mem_name _) _⟩
  | false =>
      exact Or.inr ⟨_, rfl, Argument.of_name (equals_not_mem_name _) (name_ne_empty _),
        Argument.of_plain (h hjoined)⟩

/-! ## One option after another -/

/-- Gives options their values, one after another. -/
def giveAll (o : StressOptions) (ws : List Written) : Except Rejection StressOptions :=
  ws.foldlM (fun o w => o.give w.option (some w.value)) o

theorem giveAll_cons (o : StressOptions) (w : Written) (ws : List Written) :
    giveAll o (w :: ws) = (o.give w.option (some w.value)).bind fun o' => giveAll o' ws := rfl

/-- **`stress_written`** -- written options are looked at in their order, after the one that waits.
-/
theorem stress_written {ws : List Written} (hws : ∀ w ∈ ws, w.Sound) :
    stress o pending (ws.flatMap Written.args) = (settle o pending).bind fun o' =>
      (giveAll o' ws).bind fun o'' => .ok (.stress o''.config) := by
  induction ws generalizing o pending with
  | nil => rfl
  | cons w ws ih =>
      obtain ⟨hw, hws⟩ := List.forall_mem_cons.mp hws
      rw [List.flatMap_cons]
      rcases w.args_eq hw with ⟨arg, hargs, hlook⟩ | ⟨arg, hargs, hlook, hvalue⟩
      · rw [hargs, List.singleton_append, stress_joined hlook]
        cases settle o pending with
        | error e => rfl
        | ok o₁ =>
            show (o₁.give w.option (some w.value)).bind _ = (giveAll o₁ (w :: ws)).bind _
            rw [giveAll_cons]
            cases o₁.give w.option (some w.value) with
            | error e => rfl
            | ok o₂ => exact ih hws
      · -- The value is kept until the next option arrives, and looked at before that one.
        rw [hargs, List.cons_append, List.singleton_append, stress_name hlook]
        cases settle o pending with
        | error e => rfl
        | ok o₁ =>
            show stress o₁ (some ⟨w.option, none⟩) (w.value :: _) = _
            rw [stress_of_takes (.value w.option w.value hvalue), ih hws]
            show (o₁.give w.option (some w.value)).bind _ = (giveAll o₁ (w :: ws)).bind _
            rw [giveAll_cons]
            cases o₁.give w.option (some w.value) <;> rfl

/-! ## The way back -/

/-- **`only`** -- the part of a configuration that these options make up. -/
def only (config : StressConfig) (given : List StressOption) : StressOptions where
  threads := if .threads ∈ given then some config.threads else none
  iterations := if .iterations ∈ given then some config.iterations else none
  rounds := if .rounds ∈ given then some config.rounds else none
  json := if .json ∈ given then config.json else none

/-- One more option of a configuration. -/
theorem give_only {config : StressConfig} {given : List StressOption} {w : Written}
    (hjson : config.json ≠ some (.ofText "")) (hgives : w.Gives config) (hnew : w.option ∉ given) :
    (only config given).give w.option (some w.value) = .ok (only config (w.option :: given)) := by
  obtain ⟨option, value, joined⟩ := w
  have hhas : (only config given).has option = false := by
    cases option <;> simp_all [StressOptions.has, only]
  show (if (only config given).has option = true then _ else (only config given).set option value)
    = _
  rw [hhas, if_neg Bool.false_ne_true]
  cases option with
  | json =>
      have hvalue : config.json = some value := hgives
      have hne : value ≠ "" := fun heq => hjson (heq ▸ hvalue)
      simp [StressOptions.set, hne, only, hvalue]
  | _ =>
      simp [StressOptions.set, StressOptions.number_of_numeral hgives, bind, Except.bind, only]

/-- **`giveAll_only`** -- options that say what a configuration has make up more of it. -/
theorem giveAll_only {config : StressConfig} {given : List StressOption} {ws : List Written}
    (hjson : config.json ≠ some (.ofText "")) (hgives : ∀ w ∈ ws, w.Gives config)
    (honce : (ws.map Written.option).Nodup) (hnew : ∀ w ∈ ws, w.option ∉ given) :
    giveAll (only config given) ws =
      .ok (only config ((ws.map Written.option).reverse ++ given)) := by
  induction ws generalizing given with
  | nil => rfl
  | cons w ws ih =>
      obtain ⟨hgives, hgives'⟩ := List.forall_mem_cons.mp hgives
      obtain ⟨hnew, hnew'⟩ := List.forall_mem_cons.mp hnew
      obtain ⟨hfirst, honce⟩ := List.nodup_cons.mp honce
      have hnext : ∀ w' ∈ ws, w'.option ∉ w.option :: given := by
        intro w' hw' hmem
        rcases List.mem_cons.mp hmem with heq | hmem
        · exact hfirst (heq ▸ List.mem_map_of_mem hw')
        · exact hnew' w' hw' hmem
      rw [giveAll_cons, give_only hjson hgives hnew]
      show giveAll _ ws = _
      rw [ih hgives' honce hnext]
      simp

/-- Options that were not given have their defaults. -/
theorem config_only {config : StressConfig} {given : List StressOption}
    (h : ∀ option, option ∉ given → HasDefault config option) :
    (only config given).config = config := by
  obtain ⟨threads, iterations, rounds, json⟩ := config
  have hthreads := h .threads
  have hiterations := h .iterations
  have hrounds := h .rounds
  have hjson := h .json
  simp only [HasDefault] at hthreads hiterations hrounds hjson
  simp only [StressOptions.config, only, StressConfig.mk.injEq]
  refine ⟨?_, ?_, ?_, ?_⟩ <;> split <;> simp_all

theorem stress_spelled {config : StressConfig} {ws : List Written} (hws : ∀ w ∈ ws, w.Sound)
    (h : Spells ws config) (hjson : config.json ≠ some (.ofText "")) :
    stress .empty none (ws.flatMap Written.args) = .ok (.stress config) := by
  have hall : giveAll .empty ws = .ok (only config ((ws.map Written.option).reverse ++ [])) :=
    giveAll_only hjson h.gives h.once fun w _ => List.not_mem_nil
  rw [stress_written hws]
  show (giveAll .empty ws).bind _ = _
  rw [hall]
  show Except.ok (Command.stress (only config _).config) = _
  rw [config_only]
  intro option hoption
  exact h.others option (by simpa using hoption)

/-! ## What is refused -/

/-- The arguments of a written option do not ask for help. -/
theorem Written.not_asksHelp {w : Written} (h : w.Sound) :
    ∀ arg ∈ w.args, (Argument.of arg).asksHelp = false := by
  have hname : ∀ value, (Argument.long w.option.name value).asksHelp = false := by
    intro value
    unfold Argument.asksHelp
    split
    case h_1 heq => exact absurd (Argument.long.inj heq).1 (name_ne_help _)
    case h_2 heq => exact absurd heq nofun
    case h_3 => rfl
  intro arg harg
  rcases w.args_eq h with ⟨first, hargs, hlook⟩ | ⟨first, hargs, hlook, hvalue⟩
  · rw [hargs, List.mem_singleton] at harg
    rw [harg, hlook, hname]
  · rw [hargs, List.mem_cons, List.mem_singleton] at harg
    rcases harg with rfl | rfl
    · rw [hlook, hname]
    · rw [hvalue]
      rfl

theorem not_asksHelp_of_written {ws : List Written} (hws : ∀ w ∈ ws, w.Sound) :
    ∀ arg ∈ ws.flatMap Written.args, (Argument.of arg).asksHelp = false := by
  intro arg harg
  obtain ⟨w, hw, harg⟩ := List.mem_flatMap.mp harg
  exact w.not_asksHelp (hws w hw) arg harg

/-- A written option is named. -/
theorem Written.one_le_timesNamed {w : Written} (h : w.Sound) :
    1 ≤ timesNamed w.option w.args := by
  refine List.one_le_countP_iff.mpr ?_
  rcases w.args_eq h with ⟨arg, hargs, hlook⟩ | ⟨arg, hargs, hlook, -⟩ <;>
  · refine ⟨arg, by rw [hargs]; exact List.mem_cons_self, ?_⟩
    rw [hlook]
    exact decide_eq_true (ofName?_name w.option)

theorem one_le_timesNamed_of_written {ws : List Written} (hws : ∀ w ∈ ws, w.Sound)
    {option : StressOption} (h : option ∈ ws.map Written.option) :
    1 ≤ timesNamed option (ws.flatMap Written.args) := by
  obtain ⟨w, hw, rfl⟩ := List.mem_map.mp h
  obtain ⟨before, after, rfl⟩ := List.append_of_mem hw
  have hone := w.one_le_timesNamed (hws w hw)
  simp only [timesNamed, List.flatMap_append, List.flatMap_cons, List.countP_append] at hone ⊢
  omega

/-- **`exitCode_of_repeated`** -- arguments that name an option twice, and do not ask for help, end
the program with an error. -/
theorem exitCode_of_repeated {args : List String} {option : StressOption}
    (hhelp : ∀ arg ∈ args, (Argument.of arg).asksHelp = false)
    (h : 2 ≤ timesNamed option args) :
    ∃ e, stress o none args = .error e ∧ e.exitCode = 2 := by
  refine exitCode_of_not_ok hhelp fun command hok => ?_
  have hle := timesNamed_le_one hok option
  omega

/-- Where options are given their values, each value was taken. -/
theorem give_of_giveAll {ws : List Written} (h : giveAll o ws = .ok o') {w : Written}
    (hw : w ∈ ws) : ∃ o₁ o₂ : StressOptions, o₁.give w.option (some w.value) = .ok o₂ := by
  induction ws generalizing o with
  | nil => exact absurd hw List.not_mem_nil
  | cons first ws ih =>
      obtain ⟨o₁, hfirst, hrest⟩ := Except.of_bind_ok h
      rcases List.mem_cons.mp hw with rfl | hw
      · exact ⟨o, o₁, hfirst⟩
      · exact ih hrest hw

/-- A number that does not fit is not taken. -/
theorem give_huge_ne_ok {w : Written} (hoption : w.option ≠ .json) {n : Nat}
    (hn : Numeral.ofDigits? w.value.toList = some n) (hhuge : 2 ^ 64 ≤ n) :
    o.give w.option (some w.value) ≠ .ok o' := by
  intro h
  obtain ⟨text, htext, -, hset⟩ := give_ok h
  obtain rfl := Option.some.inj htext
  have hnumber := StressOptions.number_of_huge hn hhuge
  cases hcase : w.option with
  | json => exact hoption hcase
  | _ =>
      rw [hcase] at hset
      obtain ⟨m, hm, -⟩ := Except.of_bind_ok hset
      exact absurd (hnumber.symm.trans hm) nofun

theorem exitCode_of_huge {ws : List Written} (hws : ∀ w ∈ ws, w.Sound) {w : Written} (hw : w ∈ ws)
    (hoption : w.option ≠ .json) {n : Nat} (hn : Numeral.ofDigits? w.value.toList = some n)
    (hhuge : 2 ^ 64 ≤ n) :
    ∃ e, stress o none (ws.flatMap Written.args) = .error e ∧ e.exitCode = 2 := by
  refine exitCode_of_not_ok (not_asksHelp_of_written hws) fun command hok => ?_
  rw [stress_written hws] at hok
  obtain ⟨o₁, -, hok⟩ := Except.of_bind_ok hok
  obtain ⟨o₂, hall, -⟩ := Except.of_bind_ok hok
  obtain ⟨o₃, o₄, hgive⟩ := give_of_giveAll hall hw
  exact give_huge_ne_ok hoption hn hhuge hgive

/-! ## The arguments of the program -/

/-- **`parse_written`** -- written options are read back: as the configuration that they spell, and
not at all if one of them is written again, wherever that is, or has a number that does not fit. -/
theorem parse_written {ws : List Written} (hws : ∀ w ∈ ws, w.Sound) :
    (∀ config, Spells ws config → config.json ≠ some (.ofText "") →
      parse ("stress" :: ws.flatMap Written.args) = .ok (.stress config)) ∧
    (∀ again : Written, again.Sound → again.option ∈ ws.map Written.option →
      ∀ before after, ws.flatMap Written.args = before ++ after →
        ∃ e, parse ("stress" :: (before ++ again.args ++ after)) = .error e ∧ e.exitCode = 2) ∧
    (∀ w ∈ ws, w.option ≠ .json → ∀ n, Numeral.ofDigits? w.value.toList = some n → 2 ^ 64 ≤ n →
      ∃ e, parse ("stress" :: ws.flatMap Written.args) = .error e ∧ e.exitCode = 2) := by
  refine ⟨fun config h hjson => stress_spelled hws h hjson, ?_, ?_⟩
  · intro again hagain hoption before after hsplit
    have hone := one_le_timesNamed_of_written hws hoption
    have hmore := again.one_le_timesNamed hagain
    have htwice : 2 ≤ timesNamed again.option (before ++ again.args ++ after) := by
      rw [hsplit] at hone
      simp only [timesNamed, List.countP_append] at hone hmore ⊢
      omega
    refine exitCode_of_repeated ?_ htwice
    have hhelp := not_asksHelp_of_written hws
    rw [hsplit] at hhelp
    intro arg harg
    rcases List.mem_append.mp harg with harg | harg
    · rcases List.mem_append.mp harg with harg | harg
      · exact hhelp arg (List.mem_append_left _ harg)
      · exact again.not_asksHelp hagain arg harg
    · exact hhelp arg (List.mem_append_right _ harg)
  · intro w hw hoption n hn hhuge
    exact exitCode_of_huge hws hw hoption hn hhuge

/-- The greatest number is read, and the next one is not; and an option is refused that stands again
between the name of another and its value. -/
theorem parse_written_greatest :
    parse ["stress", "--iterations", "5", "--json=a=b", "--threads=18446744073709551615"] =
        .ok (.stress ⟨18446744073709551615, 5, 200000, some "a=b"⟩) ∧
      (∃ e, parse ["stress", "--iterations", "--threads", "4", "5", "--json=a=b",
        "--threads=18446744073709551615"] = .error e ∧ e.exitCode = 2) ∧
      ∃ e, parse ["stress", "--rounds=18446744073709551616"] = .error e ∧ e.exitCode = 2 := by
  have hsound : ∀ w ∈ ([⟨.iterations, "5", false⟩, ⟨.json, "a=b", true⟩,
      ⟨.threads, "18446744073709551615", true⟩] : List Written), w.Sound := by
    simp [Written.Sound]
  have hspells : Spells [⟨.iterations, "5", false⟩, ⟨.json, "a=b", true⟩,
      ⟨.threads, "18446744073709551615", true⟩]
      ⟨18446744073709551615, 5, 200000, some "a=b"⟩ := by
    refine ⟨by decide, List.forall_mem_cons.mpr ⟨rfl, List.forall_mem_cons.mpr
      ⟨rfl, List.forall_mem_singleton.mpr rfl⟩⟩, fun option hoption => ?_⟩
    cases option with
    | rounds => rfl
    | _ => exact absurd (by decide) hoption
  have hlast : ∀ w ∈ ([⟨.rounds, "18446744073709551616", true⟩] : List Written), w.Sound := by
    simp [Written.Sound]
  obtain ⟨hback, htwice, -⟩ := parse_written hsound
  exact ⟨hback _ hspells nofun,
    htwice ⟨.threads, "4", false⟩ (fun _ => by decide) (by decide) ["--iterations"] _ rfl,
    (parse_written hlast).2.2 _ List.mem_cons_self nofun (2 ^ 64) (by decide) (by decide)⟩

end CommandLine

end SharedCells
