/-
# SharedCells.Rate -- how fast a benchmark ran, for a reader

A rate is a number of operations per second. It is shown in millions (`M`) if it is above
10^6, in thousands (`K`) if it is above 10^3, and else as it is. The two scaled forms divide
once and show two decimals of the quotient; the plain form shows none. All of them show the
exact decimal value, rounded with ties to even.
-/

import SharedCells.Binary64
import SharedCells.Numeral

namespace SharedCells

/-- **`Scale`** -- the unit a rate is shown in. -/
inductive Scale where
  | one
  | kilo
  | mega
  deriving DecidableEq

namespace Scale

/-- How many operations per second the unit stands for. -/
def factor : Scale → Nat
  | one => 1
  | kilo => 1000
  | mega => 1000000

/-- The number of decimals shown. -/
def places : Scale → Nat
  | one => 0
  | kilo | mega => 2

/-- What follows the number. -/
def suffix : Scale → List Char
  | one => []
  | kilo => ['K']
  | mega => ['M']

/-- The unit for a rate. -/
def of (x : Binary64) : Scale :=
  if (Binary64.ofNat 1000000).lt x then mega
  else if (Binary64.ofNat 1000).lt x then kilo
  else one

end Scale

/-- **`ShownRate`** -- a rate as shown: its digits, to be read with the unit's decimals. -/
inductive ShownRate where
  | nan
  | infinite (negative : Bool) (scale : Scale)
  | amount (negative : Bool) (digits : Nat) (scale : Scale)
  deriving DecidableEq

namespace ShownRate

/-- The digits of a magnitude with the given number of decimals. -/
def digitsOf (q : Rat) (places : Nat) : Nat :=
  roundDiv (q.num.natAbs * Nat.pow 10 places) q.den

/-- The rate in its unit. -/
def scaled (x : Binary64) : Scale → Binary64
  | .one => x
  | scale => x.div (Binary64.ofNat scale.factor)

/-- **`of`** -- how a rate is shown. -/
def of (x : Binary64) : ShownRate :=
  let scale := Scale.of x
  match scaled x scale with
  | .nan => nan
  | .infinite s => infinite s scale
  | .finite s m e => amount s (digitsOf (Binary64.magnitude m e) scale.places) scale

/-- A number whose last digits, as many as given, are decimals. -/
def decimalText (digits places : Nat) : List Char :=
  if places = 0 then Numeral.decimal digits
  else
    let unit := Nat.pow 10 places
    let fraction := Numeral.decimal (digits % unit)
    Numeral.decimal (digits / unit) ++ ['.']
      ++ List.replicate (places - fraction.length) '0' ++ fraction

/-- The minus sign of a negative number. -/
def signText (negative : Bool) : List Char := if negative then ['-'] else []

/-- **`text`** -- the rate written out. -/
def text : ShownRate → List Char
  | nan => "NaN".toList
  | infinite negative scale => signText negative ++ "inf".toList ++ scale.suffix
  | amount negative digits scale =>
    signText negative ++ decimalText digits scale.places ++ scale.suffix

end ShownRate

/-- **`rateText`** -- a rate, written for a reader. -/
def rateText (x : Binary64) : String := String.ofList (ShownRate.of x).text

/-- **`rateOf`** -- operations per second, from the operations of one pass and the time of a
pass in nanoseconds. -/
def rateOf (elements nanoseconds : Binary64) : Binary64 :=
  (elements.mul (Binary64.ofNat 1000000000)).div nanoseconds

end SharedCells
