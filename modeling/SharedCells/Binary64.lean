/-
# SharedCells.Binary64 -- floating-point numbers of 64 bits, as exact numbers

A finite number is a sign, a mantissa below 2^53 and an exponent, and stands for the rational
`± mantissa · 2^exponent`. The exponent lies between -1074 and 971; unless it is the least
one the mantissa is at least 2^52. So every number has one form, and zero has two: the sign
of a zero is kept.

Products and quotients are the exact rational result rounded once: to the nearest number of
this form, a tie going to the even mantissa, and to infinity from the middle between the
greatest number and 2^1024 on.
-/

namespace SharedCells

/-- **`roundDiv n d`** -- the quotient `n / d` rounded to the nearest natural number, a tie
going to the even one. -/
def roundDiv (n d : Nat) : Nat :=
  let q := n / d
  let twice := 2 * (n % d)
  if twice < d then q
  else if d < twice then q + 1
  else if q % 2 = 0 then q else q + 1

/-- **`Binary64`** -- what 64 bits denote. -/
inductive Binary64 where
  | nan
  | infinite (negative : Bool)
  | finite (negative : Bool) (mantissa : Nat) (exponent : Int)
  deriving DecidableEq

namespace Binary64

/-- The least exponent of a finite number. -/
def leastExponent : Int := -1074

/-- The greatest exponent of a finite number. -/
def greatestExponent : Int := 971

/-- The number of bits of a full mantissa. -/
def precision : Nat := 53

/-- The rational `mantissa · 2^exponent`. -/
def magnitude (mantissa : Nat) (exponent : Int) : Rat :=
  if 0 ≤ exponent then mkRat (mantissa <<< exponent.toNat : Nat) 1
  else mkRat mantissa (1 <<< (-exponent).toNat)

/-- **`toRat`** -- the rational a finite number stands for; 0 for the others. -/
def toRat : Binary64 → Rat
  | finite negative m e => if negative then -magnitude m e else magnitude m e
  | _ => 0

/-- **`ofBits`** -- the number that 64 bits denote: one bit of sign, eleven of exponent, and
52 of fraction, to which a leading one is added unless the exponent field is zero. -/
def ofBits (b : BitVec 64) : Binary64 :=
  let fraction := b.toNat % (1 <<< 52)
  let field := b.toNat >>> 52 % (1 <<< 11)
  if field = 2047 then if fraction = 0 then infinite b.msb else nan
  else if field = 0 then finite b.msb fraction leastExponent
  else finite b.msb (fraction + 1 <<< 52) (field - 1075)

/-! ## Rounding -/

/-- The exponent of the greatest power of two that is at most `q`, for a positive `q`. -/
def log2 (q : Rat) : Int :=
  let n := q.num.natAbs
  let guess : Int := n.log2 - q.den.log2
  let reached : Bool :=
    if 0 ≤ guess then q.den <<< guess.toNat ≤ n else q.den ≤ n <<< (-guess).toNat
  if reached then guess else guess - 1

/-- The quotient `q / 2^exponent`, rounded to the nearest natural number. -/
def roundAt (q : Rat) (exponent : Int) : Nat :=
  if 0 ≤ exponent then roundDiv q.num.natAbs (q.den <<< exponent.toNat)
  else roundDiv (q.num.natAbs <<< (-exponent).toNat) q.den

/-- **`round`** -- the number nearest to the magnitude `q`, with the sign given. -/
def round (negative : Bool) (q : Rat) : Binary64 :=
  if q = 0 then finite negative 0 leastExponent
  else
    let e := max leastExponent (log2 q - 52)
    let m := roundAt q e
    let (m, e) := if m = 1 <<< precision then (1 <<< 52, e + 1) else (m, e)
    if greatestExponent < e then infinite negative else finite negative m e

/-- The number nearest to a natural number. -/
def ofNat (n : Nat) : Binary64 := round false (mkRat n 1)

/-- The number nearest to a power of ten. -/
def powerOfTen (n : Nat) : Binary64 := ofNat (Nat.pow 10 n)

/-! ## Operations -/

/-- The number with the other sign. -/
def neg : Binary64 → Binary64
  | nan => nan
  | infinite s => infinite (!s)
  | finite s m e => finite (!s) m e

/-- Is it one of the two zeros? -/
def isZero : Binary64 → Bool
  | finite _ m _ => m == 0
  | _ => false

/-- **`mul`** -- the exact product, rounded. Infinity times zero is no number. -/
def mul : Binary64 → Binary64 → Binary64
  | finite s m e, finite t n f => round (s ^^ t) (magnitude m e * magnitude n f)
  | infinite s, infinite t => infinite (s ^^ t)
  | infinite s, finite t n _ => if n = 0 then nan else infinite (s ^^ t)
  | finite s m _, infinite t => if m = 0 then nan else infinite (s ^^ t)
  | nan, _ => nan
  | _, nan => nan

/-- **`div`** -- the exact quotient, rounded. Zero by zero and infinity by infinity are no
numbers; any other number by zero is infinite. -/
def div : Binary64 → Binary64 → Binary64
  | finite s m e, finite t n f =>
    if n = 0 then if m = 0 then nan else infinite (s ^^ t)
    else round (s ^^ t) (magnitude m e / magnitude n f)
  | infinite s, finite t _ _ => infinite (s ^^ t)
  | finite s _ _, infinite t => finite (s ^^ t) 0 leastExponent
  | infinite _, infinite _ => nan
  | nan, _ => nan
  | _, nan => nan

/-- **`lt`** -- the order of the numbers; what is no number is not below anything. -/
def lt : Binary64 → Binary64 → Bool
  | nan, _ => false
  | _, nan => false
  | infinite s, infinite t => s && !t
  | infinite s, finite .. => s
  | finite .., infinite t => !t
  | finite s m e, finite t n f => (finite s m e).toRat < (finite t n f).toRat

end Binary64

end SharedCells
