/-
# SharedCells.Json.Number -- numbers in JSON texts

A number without fraction and exponent that fits 64 bits is kept exactly. Any other number
becomes a floating-point number: its leading digits, as many as fit 64 bits, are rounded
and then multiplied or divided by a power of ten, which rounds a second time. The result
can therefore differ from the nearest number in its last bit. A number whose magnitude is
beyond all finite numbers is refused.
-/

import SharedCells.Binary64
import SharedCells.Json.Fault
import SharedCells.Numeral

namespace SharedCells.Json

/-- **`Number`** -- a number as read. -/
inductive Number where
  | natural (n : Nat)
  /-- The negative whole number of magnitude `n`. -/
  | negative (n : Nat)
  | real (x : Binary64)

/-- **`Number.toBinary64`** -- the nearest floating-point number. -/
def Number.toBinary64 : Number → Binary64
  | natural n => .ofNat n
  | negative n => (Binary64.ofNat n).neg
  | real x => x

namespace Number

/-- What reading a number gives: the number and the text left over. -/
abbrev Result := Except Fault (Number × List Char)

/-- The digits of a number are kept below this bound. -/
def wordBound : Nat := 1 <<< 64

/-- **`takeDigits`** -- appends digits to a number as long as it stays below the bound: the
number, how many digits were taken, and the text left over. -/
def takeDigits (bound n : Nat) : List Char → Nat × Nat × List Char
  | [] => (n, 0, [])
  | c :: rest =>
    match Numeral.digit? c with
    | none => (n, 0, c :: rest)
    | some d =>
      if 10 * n + d < bound then
        let (n', taken, rest') := takeDigits bound (10 * n + d) rest
        (n', taken + 1, rest')
      else (n, 0, c :: rest)

/-- Skips digits: how many there were, and the text left over. -/
def skipDigits (cs : List Char) : Nat × List Char :=
  ((cs.takeWhile Char.isDigit).length, cs.dropWhile Char.isDigit)

/-- The number with its sign. -/
def signed (negative : Bool) (x : Binary64) : Number := real (if negative then x.neg else x)

/-- Divides by 10^308 as often as needed to bring the exponent within reach, or until nothing
is left. The first argument bounds the number of divisions. -/
def scaleDown : Nat → Binary64 → Nat → Binary64
  | 0, x, _ => x
  | fuel + 1, x, exponent =>
    if exponent ≤ 308 then x.div (Binary64.powerOfTen exponent)
    else if x.isZero then x
    else scaleDown fuel (x.div (Binary64.powerOfTen 308)) (exponent - 308)

/-- **`ofParts`** -- the number `significand · 10^exponent`; `rest` is the text left over. -/
def ofParts (negative : Bool) (significand : Nat) (exponent : Int) (rest : List Char) : Result :=
  let x := Binary64.ofNat significand
  if exponent < 0 then
    let down := exponent.natAbs
    .ok (signed negative (scaleDown (down + 1) x down), rest)
  else if 308 < exponent then
    if x.isZero then .ok (signed negative x, rest) else .error ⟨.numberOutOfRange, rest, 0⟩
  else
    match x.mul (Binary64.powerOfTen exponent.toNat) with
    | .infinite _ => .error ⟨.numberOutOfRange, rest, 0⟩
    | y => .ok (signed negative y, rest)

/-- The greatest exponent that is kept as written. -/
def exponentBound : Nat := 2147483647

/-- The exponent kept within the range of those that are kept. -/
def clampExponent (e : Int) : Int := max (-(exponentBound + 1)) (min exponentBound e)

/-- The exponent after its letter; `start` is the exponent that the digits so far call for. -/
def readExponent (negative : Bool) (significand : Nat) (start : Int) (cs : List Char) : Result :=
  let (down, cs) := match cs with
    | '+' :: rest => (false, rest)
    | '-' :: rest => (true, rest)
    | rest => (false, rest)
  match cs with
  | [] => .error ⟨.unfinishedValue, [], 0⟩
  | c :: rest =>
    match Numeral.digit? c with
    | none => .error ⟨.invalidNumber, c :: rest, 1⟩
    | some d =>
      let (written, _, rest) := takeDigits (exponentBound + 1) d rest
      let (more, left) := skipDigits rest
      if 0 < more then
        if significand ≠ 0 ∧ !down then .error ⟨.numberOutOfRange, rest, 1⟩
        else .ok (signed negative (.ofNat 0), left)
      else
        let exponent := clampExponent (if down then start - written else start + written)
        ofParts negative significand exponent rest

/-- What follows the digits: an exponent, or nothing that belongs to the number. -/
def readTail (negative : Bool) (significand : Nat) (exponent : Int) (cs : List Char) : Result :=
  match cs with
  | 'e' :: rest => readExponent negative significand exponent rest
  | 'E' :: rest => readExponent negative significand exponent rest
  | rest => ofParts negative significand exponent rest

/-- The digits after the point. Those that do not fit are skipped. -/
def readFraction (negative : Bool) (significand : Nat) (exponent : Int) (cs : List Char) :
    Result :=
  let (significand, taken, rest) := takeDigits wordBound significand cs
  let (skipped, left) := skipDigits rest
  if taken = 0 ∧ skipped = 0 then
    match rest with
    | [] => .error ⟨.unfinishedValue, [], 0⟩
    | rest => .error ⟨.invalidNumber, rest, 1⟩
  else readTail negative significand (exponent - taken) left

/-- What follows the digits before the point; `skipped` of them did not fit. -/
def readRest (negative : Bool) (significand skipped : Nat) (cs : List Char) : Result :=
  match cs with
  | '.' :: rest => readFraction negative significand skipped rest
  | rest => readTail negative significand skipped rest

/-- A whole number that fits 64 bits: a natural one is kept, and so is a negative one if its
magnitude is at most 2^63. -/
def ofWhole (negative : Bool) (n : Nat) : Number :=
  if !negative then natural n
  else if n = 0 ∨ 1 <<< 63 < n then signed true (.ofNat n)
  else Number.negative n

/-- The digits before the point, and what follows them. -/
def readWhole (negative : Bool) (first : Nat) (cs : List Char) : Result :=
  let (n, _, rest) := takeDigits wordBound first cs
  let (skipped, left) := skipDigits rest
  if 0 < skipped then readRest negative n skipped left
  else
    match rest with
    | '.' :: _ | 'e' :: _ | 'E' :: _ => readRest negative n 0 rest
    | rest => .ok (ofWhole negative n, rest)

/-- **`read`** -- a number, its minus sign already taken. A zero ends the digits before the
point. -/
def read (negative : Bool) : List Char → Result
  | [] => .error ⟨.unfinishedValue, [], 0⟩
  | '0' :: rest =>
    match rest with
    | c :: more =>
      if c.isDigit then .error ⟨.invalidNumber, c :: more, 1⟩ else readWhole negative 0 (c :: more)
    | [] => readWhole negative 0 []
  | c :: rest =>
    match Numeral.digit? c with
    | some d => readWhole negative d rest
    | none => .error ⟨.invalidNumber, c :: rest, 1⟩

end Number

end SharedCells.Json
