/-
# SharedCells.CommandLine -- the program's arguments

The first argument names a command, and the others are its options. `bench` has two flags.
`stress` has four options with a value, written as `--name=value` or as two arguments; in
the second form the value must not look like an option.

An option that waits for its value, or has just been given it, is looked at only when the
next option arrives or the arguments end. So an argument that is not known is reported
before a bad value in front of it, while a request for help is not. An option is looked at
in this order: is a value missing, was it given before, does the value read?
-/

import SharedCells.Stress.Report

namespace SharedCells

/-- **`Command`** -- what the program is asked to do. -/
inductive Command where
  | bench (quick reportOnly : Bool)
  | stress (config : StressConfig)

/-- **`Rejection`** -- why arguments do not name a command. A request for help is one, too. -/
inductive Rejection where
  | help
  /-- There are no arguments. -/
  | missingCommand
  | unknownCommand
  | unknownArgument
  /-- An option was given twice. -/
  | repeatedOption
  /-- An option has no value, or an empty one that it does not take. -/
  | missingValue
  /-- A value is not a number that fits. -/
  | badNumber
  /-- A flag was given a value. -/
  | valueForFlag
  deriving DecidableEq

namespace Rejection

/-- The name of the kind of rejection. -/
def kind : Rejection → String
  | help => "DisplayHelp"
  | missingCommand => "DisplayHelpOnMissingArgumentOrSubcommand"
  | unknownCommand => "InvalidSubcommand"
  | unknownArgument => "UnknownArgument"
  | repeatedOption => "ArgumentConflict"
  | missingValue => "InvalidValue"
  | badNumber => "ValueValidation"
  | valueForFlag => "TooManyValues"

/-- The exit code: a request for help is fulfilled, all else is an error. -/
def exitCode : Rejection → Nat
  | help => 0
  | _ => 2

end Rejection

/-- **`Argument`** -- an argument by its looks. -/
inductive Argument where
  /-- Two dashes: no options after this. -/
  | endOfOptions
  /-- Two dashes and a name, perhaps with a value after an equals sign. -/
  | long (name : String) (value : Option String)
  /-- One dash and letters. -/
  | short (letters : List Char)
  | plain (text : String)

/-- **`Argument.of`** -- how an argument looks. A single dash is a plain word. -/
def Argument.of (text : String) : Argument :=
  match text.toList with
  | ['-', '-'] => endOfOptions
  | '-' :: '-' :: rest =>
    match rest.dropWhile (· ≠ '=') with
    | [] => long (String.ofList rest) none
    | _ :: value =>
      long (String.ofList (rest.takeWhile (· ≠ '='))) (some (String.ofList value))
  | '-' :: c :: rest => short (c :: rest)
  | _ => plain text

/-- Does the argument ask for help? -/
def Argument.asksHelp : Argument → Bool
  | long "help" none => true
  | short ('h' :: _) => true
  | _ => false

namespace CommandLine

/-! ## The options of `bench` -/

/-- The flags given so far. -/
structure BenchFlags where
  quick : Bool
  reportOnly : Bool

/-- Takes one argument of `bench` into account. -/
def benchStep (flags : BenchFlags) (arg : String) : Except Rejection BenchFlags :=
  match Argument.of arg with
  | .long "quick" none =>
    if flags.quick then .error .repeatedOption else .ok { flags with quick := true }
  | .long "report-only" none =>
    if flags.reportOnly then .error .repeatedOption else .ok { flags with reportOnly := true }
  | .long "quick" (some _) | .long "report-only" (some _) | .long "help" (some _) =>
    .error .valueForFlag
  | other => .error (if other.asksHelp then .help else .unknownArgument)

/-- **`bench`** -- the arguments after `bench`. -/
def bench (flags : BenchFlags) : List String → Except Rejection Command
  | [] => .ok (.bench flags.quick flags.reportOnly)
  | "--" :: rest => if rest = [] then bench flags [] else .error .unknownArgument
  | arg :: rest => do bench (← benchStep flags arg) rest

/-! ## The options of `stress` -/

/-- **`StressOption`** -- the options with a value. -/
inductive StressOption where
  | threads
  | iterations
  | rounds
  | json
  deriving DecidableEq

/-- The option of that name. -/
def StressOption.ofName? : String → Option StressOption
  | "threads" => some threads
  | "iterations" => some iterations
  | "rounds" => some rounds
  | "json" => some json
  | _ => none

/-- The options given so far. -/
structure StressOptions where
  threads : Option (Value .word)
  iterations : Option (Value .word)
  rounds : Option (Value .word)
  json : Option Path

namespace StressOptions

/-- No options. -/
def empty : StressOptions := ⟨none, none, none, none⟩

/-- Was the option given? -/
def has (o : StressOptions) : StressOption → Bool
  | .threads => o.threads.isSome
  | .iterations => o.iterations.isSome
  | .rounds => o.rounds.isSome
  | .json => o.json.isSome

/-- An unsigned number of 64 bits. -/
def number (text : String) : Except Rejection (Value .word) :=
  match Numeral.readBelow? (1 <<< 64) text.toList with
  | some n => .ok (BitVec.ofNat _ n)
  | none => .error .badNumber

/-- Gives an option its value. -/
def set (o : StressOptions) (option : StressOption) (text : String) :
    Except Rejection StressOptions :=
  match option with
  | .threads => do .ok { o with threads := some (← number text) }
  | .iterations => do .ok { o with iterations := some (← number text) }
  | .rounds => do .ok { o with rounds := some (← number text) }
  | .json =>
    if text = "" then .error .missingValue else .ok { o with json := some (.ofText text) }

/-- **`give`** -- looks at an option with the values it was given. -/
def give (o : StressOptions) (option : StressOption) (value : Option String) :
    Except Rejection StressOptions :=
  match value with
  | none => .error .missingValue
  | some text => if o.has option then .error .repeatedOption else o.set option text

/-- The configuration, with the defaults of the options that were not given. -/
def config (o : StressOptions) : StressConfig where
  threads := o.threads.getD 8
  iterations := o.iterations.getD 100000
  rounds := o.rounds.getD 200000
  json := o.json

end StressOptions

/-- An option that was not looked at yet, with its value if it came already. -/
structure Pending where
  option : StressOption
  value : Option String

/-- Looks at the option that waits, if there is one. -/
def settle (o : StressOptions) : Option Pending → Except Rejection StressOptions
  | none => .ok o
  | some p => o.give p.option p.value

/-- **`stress`** -- the arguments after `stress`. -/
def stress (o : StressOptions) (pending : Option Pending) :
    List String → Except Rejection Command
  | [] => do .ok (.stress (← settle o pending).config)
  | arg :: rest =>
    match Argument.of arg, pending with
    | .endOfOptions, pending =>
      if rest = [] then do .ok (.stress (← settle o pending).config)
      else .error .unknownArgument
    | .long "help" (some _), _ => .error .valueForFlag
    | .long name value, pending =>
      match StressOption.ofName? name, value with
      | some option, none => do stress (← settle o pending) (some ⟨option, none⟩) rest
      | some option, some text => do
        let o ← settle o pending
        stress (← o.give option (some text)) none rest
      | none, _ =>
        if name = "help" then do
          let _ ← settle o pending
          .error .help
        else .error .unknownArgument
    | .short letters, pending =>
      if letters.head? = some 'h' then do
        let _ ← settle o pending
        .error .help
      else .error .unknownArgument
    | .plain text, some ⟨option, none⟩ => stress o (some ⟨option, some text⟩) rest
    | .plain _, _ => .error .unknownArgument

/-! ## The program -/

/-- The names of the commands. -/
def commandNames : List String := ["bench", "stress", "help"]

/-- The arguments after `help`: a command to explain, or nothing. -/
def help : List String → Rejection
  | [] => .help
  | [name] => if name ∈ commandNames then .help else .unknownCommand
  | _ => .unknownCommand

/-- The arguments after two dashes: there is nothing they could mean. -/
def afterDashes : List String → Rejection
  | [] => .missingCommand
  | name :: _ => if name ∈ commandNames then .unknownArgument else .unknownCommand

/-- **`parse`** -- the command that the arguments name. -/
def parse : List String → Except Rejection Command
  | [] => .error .missingCommand
  | "bench" :: rest => bench ⟨false, false⟩ rest
  | "stress" :: rest => stress .empty none rest
  | "help" :: rest => .error (help rest)
  | arg :: rest =>
    match Argument.of arg with
    | .endOfOptions => .error (afterDashes rest)
    | .long "help" (some _) => .error .valueForFlag
    | .plain _ => .error .unknownCommand
    | other => .error (if other.asksHelp then .help else .unknownArgument)

end CommandLine

end SharedCells
