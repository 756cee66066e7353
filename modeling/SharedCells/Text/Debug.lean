/-
# SharedCells.Text.Debug -- values written for a developer to read

A value is written as its name with its parts in brackets: `AtomicCell(9)` for a tuple,
`Misaligned { addr: 1, align: 8 }` for a record. A format says how the numbers inside are
written, and whether the parts are spread over lines of their own, indented by four and
each followed by a comma.

A number is its digits, preceded by a plus sign and by `0x` where the format asks for them.
If that is shorter than the format's width it is filled up: with zeros between `0x` and the
digits if the format pads with zeros, and else with the fill character on the sides that
the alignment names.
-/

import SharedCells.Numeral

namespace SharedCells

/-- **`Radix`** -- the base of a number's digits and the case of its letters. -/
inductive Radix where
  | decimal
  | lowerHex
  | upperHex
  deriving DecidableEq

/-- **`Alignment`** -- where a text that is too short for its width stands. -/
inductive Alignment where
  | left
  | right
  | center
  deriving DecidableEq

/-- **`DebugFormat`** -- how a value is written. -/
structure DebugFormat where
  /-- Parts on lines of their own, and `0x` before hexadecimal digits. -/
  spread : Bool
  /-- A sign also before numbers that are not negative. -/
  plus : Bool
  /-- Fill up with zeros after the sign and `0x`. -/
  zeros : Bool
  /-- The least number of characters of a number. -/
  width : Nat
  fill : Char
  alignment : Alignment
  radix : Radix

namespace DebugFormat

/-- Decimal numbers, everything on one line, nothing filled up. -/
def plain : DebugFormat := ⟨false, false, false, 0, ' ', .right, .decimal⟩

/-- **`named`** -- the formats that can be asked for, with the text that asks for each. -/
def named : List (String × DebugFormat) :=
  [("\x7b:?\x7d", plain),
   ("\x7b:#?\x7d", { plain with spread := true }),
   ("\x7b:x?\x7d", { plain with radix := .lowerHex }),
   ("\x7b:#x?\x7d", { plain with spread := true, radix := .lowerHex }),
   ("\x7b:X?\x7d", { plain with radix := .upperHex }),
   ("\x7b:#X?\x7d", { plain with spread := true, radix := .upperHex }),
   ("\x7b:+?\x7d", { plain with plus := true }),
   ("\x7b:6?\x7d", { plain with width := 6 }),
   ("\x7b:<6?\x7d", { plain with width := 6, alignment := .left }),
   ("\x7b:*^9?\x7d", { plain with width := 9, alignment := .center, fill := '*' }),
   ("\x7b:06?\x7d", { plain with width := 6, zeros := true }),
   ("\x7b:#010x?\x7d",
     { plain with spread := true, width := 10, zeros := true, radix := .lowerHex }),
   ("\x7b:+08?\x7d", { plain with plus := true, width := 8, zeros := true })]

/-- The format that the text asks for. -/
def ofText? (text : String) : Option DebugFormat := named.lookup text

/-- The digits of a number in the format's base. -/
def digits (f : DebugFormat) (n : Nat) : List Char :=
  match f.radix with
  | .decimal => Numeral.decimal n
  | .lowerHex => Numeral.hex n
  | .upperHex => (Numeral.hex n).map Char.toUpper

/-- What stands before the digits. -/
def lead (f : DebugFormat) : List Char :=
  (if f.plus then ['+'] else []) ++
    (if f.spread ∧ f.radix ≠ .decimal then ['0', 'x'] else [])

/-- **`number`** -- a number in this format. -/
def number (f : DebugFormat) (n : Nat) : List Char :=
  let digits := f.digits n
  let missing := f.width - (f.lead.length + digits.length)
  if f.zeros then f.lead ++ List.replicate missing '0' ++ digits
  else
    let before := match f.alignment with
      | .left => 0
      | .right => missing
      | .center => missing / 2
    List.replicate before f.fill ++ (f.lead ++ digits)
      ++ List.replicate (missing - before) f.fill

/-- The parts between two brackets; `inner` stands inside the brackets if all is on one line. -/
def parts (f : DebugFormat) (opening closing inner : List Char) (texts : List (List Char)) :
    List Char :=
  if f.spread then
    opening ++ ['\n'] ++ texts.flatMap (fun t => "    ".toList ++ t ++ [',', '\n']) ++ closing
  else opening ++ inner ++ [',', ' '].intercalate texts ++ inner ++ closing

/-- **`tuple`** -- a name with its parts in round brackets. -/
def tuple (f : DebugFormat) (name : String) (texts : List (List Char)) : List Char :=
  f.parts (name.toList ++ ['(']) [')'] [] texts

/-- **`record`** -- a name with its labelled parts in curly brackets. -/
def record (f : DebugFormat) (name : String) (fields : List (String × List Char)) : List Char :=
  f.parts (name.toList ++ [' ', '\x7b']) ['\x7d'] [' ']
    (fields.map fun (label, text) => label.toList ++ [':', ' '] ++ text)

end DebugFormat

end SharedCells
