/-
# SharedCells.Failure -- why a command failed

A failure says what the command was doing, and carries the cause if there is one: an error
of the disk, or a text that is not JSON.
-/

import SharedCells.Disk.Node
import SharedCells.Json.Fault

namespace SharedCells

/-- **`ChildStatus`** -- how the benchmark program ended. -/
inductive ChildStatus where
  | exited (code : BitVec 8)
  | killed
  deriving DecidableEq

/-- Did the program end well? -/
def ChildStatus.success : ChildStatus → Bool
  | exited code => code == 0
  | killed => false

/-- The status in words. -/
def ChildStatus.message : ChildStatus → String
  | exited code => "exit status: " ++ code.toNat.repr
  | killed => "signal: 9 (SIGKILL)"

/-- **`Cause`** -- what lies behind a failure. -/
inductive Cause where
  | disk (e : DiskError)
  | json (text : String) (fault : Json.Fault)

/-- The cause in words. -/
def Cause.message : Cause → String
  | disk e => e.message
  | json text fault => fault.message text

/-- **`Failure`** -- why a command failed. -/
inductive Failure where
  | reading (path : Path) (e : DiskError)
  | parsing (path : Path) (text : String) (fault : Json.Fault)
  | creating (path : Path) (e : DiskError)
  | writing (path : Path) (e : DiskError)
  | launching (bench : String) (e : DiskError)
  | benchFailed (bench : String) (status : ChildStatus)
  | noThreads
  | checksFailed (names : List String)

namespace Failure

/-- What the command was doing, or what is wrong with it. -/
def message : Failure → String
  | reading path _ => "reading " ++ path.shown
  | parsing path _ _ => "parsing " ++ path.shown
  | creating path _ => "creating " ++ path.shown
  | writing path _ => "writing " ++ path.shown
  | launching bench _ => "failed to run cargo bench --bench " ++ bench
  | benchFailed bench status => "benchmark " ++ bench ++ " failed with " ++ status.message
  | noThreads => "--threads must be at least 1"
  | checksFailed names => "stress checks failed: " ++ ", ".intercalate names

/-- What lies behind the failure. -/
def cause? : Failure → Option Cause
  | reading _ e | creating _ e | writing _ e | launching _ e => some (.disk e)
  | parsing _ text fault => some (.json text fault)
  | benchFailed .. | noThreads | checksFailed _ => none

/-- **`report`** -- the failure and its cause as the program prints them at its end. -/
def report (f : Failure) : String :=
  "Error: " ++ f.message ++ "\n" ++
    match f.cause? with
    | none => ""
    | some cause => "\nCaused by:\n    " ++ cause.message ++ "\n"

end Failure

end SharedCells
