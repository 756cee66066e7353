/-
# SharedCells.Json.Fault -- what is wrong with a text that is not JSON

A fault names the flaw and the place where it was found. The place is given by the text that
was left when reading stopped, and by the number of bytes of it that the flaw covers: one
where the flaw lies in a character that was looked at and not taken. Lines are counted
from 1, columns in bytes from the start of the line.
-/

import SharedCells.Numeral

namespace SharedCells.Json

/-- **`Flaw`** -- the ways in which a text fails to be JSON. -/
inductive Flaw where
  | unfinishedList
  | unfinishedObject
  | unfinishedString
  | unfinishedValue
  | expectedColon
  | expectedListCommaOrEnd
  | expectedObjectCommaOrEnd
  | expectedWord
  | expectedValue
  | invalidEscape
  | invalidNumber
  | numberOutOfRange
  | controlCharacter
  | keyNotString
  | loneSurrogate
  | trailingComma
  | trailingCharacters
  | unfinishedSurrogatePair
  | tooDeep
  deriving DecidableEq

namespace Flaw

/-- The flaw in words. -/
def message : Flaw → String
  | unfinishedList => "EOF while parsing a list"
  | unfinishedObject => "EOF while parsing an object"
  | unfinishedString => "EOF while parsing a string"
  | unfinishedValue => "EOF while parsing a value"
  | expectedColon => "expected `:`"
  | expectedListCommaOrEnd => "expected `,` or `]`"
  | expectedObjectCommaOrEnd => "expected `,` or `\x7d`"
  | expectedWord => "expected ident"
  | expectedValue => "expected value"
  | invalidEscape => "invalid escape"
  | invalidNumber => "invalid number"
  | numberOutOfRange => "number out of range"
  | controlCharacter => "control character (\\u0000-\\u001F) found while parsing a string"
  | keyNotString => "key must be a string"
  | loneSurrogate => "lone leading surrogate in hex escape"
  | trailingComma => "trailing comma"
  | trailingCharacters => "trailing characters"
  | unfinishedSurrogatePair => "unexpected end of hex escape"
  | tooDeep => "recursion limit exceeded"

/-- Did the text end too early? -/
def isUnfinished : Flaw → Bool
  | unfinishedList | unfinishedObject | unfinishedString | unfinishedValue => true
  | _ => false

/-- The class of the flaw: the text ended too early, or it is wrong. -/
def category (f : Flaw) : String := if f.isUnfinished then "Eof" else "Syntax"

end Flaw

/-- **`Fault`** -- a flaw and its place. -/
structure Fault where
  flaw : Flaw
  /-- The text that was left. -/
  rest : List Char
  /-- How many bytes of it the flaw covers. -/
  ahead : Nat

namespace Fault

/-- The number of bytes that characters take up. -/
def byteCount (cs : List Char) : Nat := Numeral.total (cs.map Char.utf8Size)

/-- The bytes of the text up to the place of the fault. -/
def consumed (text : String) (f : Fault) : List UInt8 :=
  let bytes := text.toUTF8.toList
  bytes.take (bytes.length - byteCount f.rest + f.ahead)

/-- **`message`** -- the flaw in words, with its line and column. -/
def message (text : String) (f : Fault) : String :=
  let before := f.consumed text
  let line := 1 + before.count 10
  let column := (before.reverse.takeWhile (· ≠ 10)).length
  f.flaw.message ++ " at line " ++ line.repr ++ " column " ++ column.repr

end Fault

end SharedCells.Json
