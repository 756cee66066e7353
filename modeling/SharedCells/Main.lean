/-
# SharedCells.Main -- the command line

The working folder comes as a listing on standard input, and its listing afterwards goes to
standard output; so the output of one run can be the input of the next. The log and errors
go to the error output. No benchmark program can be started from here, and the threads of a
stress run take turns. What a run leaves outside the working folder is not listed.
-/

import SharedCells.Disk.Listing
import SharedCells.Json.Reader
import SharedCells.Program

namespace SharedCells

/-- All of the standard input. -/
partial def readAll (input : IO.FS.Stream) (sofar : String) : IO String := do
  let line ← input.getLine
  if line.isEmpty then return sofar
  readAll input (sofar ++ line)

end SharedCells

open SharedCells in
/-- Runs the program on the working folder listed on standard input. -/
def main (args : List String) : IO UInt32 := do
  let listing ← readAll (← IO.getStdin) ""
  match Json.read (if listing.isEmpty then "\x7b\x7d" else listing) with
  | .error fault =>
    IO.eprintln (fault.message listing)
    return 2
  | .ok doc =>
    match Disk.ofJson? doc with
    | none =>
      IO.eprintln "the listing has to map paths to texts"
      return 2
    | some disk =>
      let ended := Program.run args ⟨disk, none, StressConfig.inTurn, .zero⟩
      for event in ended.log do
        if event.isShown then IO.eprintln event.line
      IO.eprint (ended.stderr.getD "")
      IO.println (String.ofList (ended.disk.toJson.pretty Empty.elim 0))
      return ended.code.toUInt32
