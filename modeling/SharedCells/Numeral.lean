/-
# SharedCells.Numeral -- numbers in text

Numbers are written in base 10 or 16, most significant digit first and without leading
zeros. Reading is laxer than writing: leading zeros and one leading plus sign are accepted,
and a number is refused when it does not lie below the given bound.

`ofDigits?_decimal` : reading the decimal digits of a number gives the number back.
-/

namespace SharedCells.Numeral

/-- **`decimal`** -- a number in base 10. -/
def decimal (n : Nat) : List Char := Nat.toDigits 10 n

/-- **`hex`** -- a number in base 16 with small letters. -/
def hex (n : Nat) : List Char := Nat.toDigits 16 n

/-- The value of a decimal digit. -/
def digit? (c : Char) : Option Nat :=
  if c.isDigit then some (c.toNat - 48) else none

/-- The value of a hexadecimal digit of either case. -/
def hexDigit? (c : Char) : Option Nat :=
  if c.isDigit then some (c.toNat - 48)
  else if 'a' ≤ c ∧ c ≤ 'f' then some (c.toNat - 87)
  else if 'A' ≤ c ∧ c ≤ 'F' then some (c.toNat - 55)
  else none

/-- The number that a non-empty run of decimal digits denotes. -/
def ofDigits? (cs : List Char) : Option Nat :=
  if cs ≠ [] ∧ cs.all Char.isDigit then some (Nat.ofDigitChars 10 cs 0) else none

/-- The number that a non-empty run of hexadecimal digits denotes. -/
def ofHexDigits? (cs : List Char) : Option Nat :=
  if cs = [] then none
  else (cs.mapM hexDigit?).map (List.foldl (fun n d => 16 * n + d) 0)

/-- **`readBelow?`** -- an unsigned decimal below `bound`; one plus sign may lead. -/
def readBelow? (bound : Nat) (text : List Char) : Option Nat :=
  let digits := match text with
    | '+' :: rest => rest
    | other => other
  (ofDigits? digits).filter (· < bound)

/-- **`total`** -- the sum of numbers. -/
def total (ns : List Nat) : Nat := ns.foldr (· + ·) 0

theorem isDigit_of_mem_decimal {n : Nat} {c : Char} (h : c ∈ decimal n) : c.isDigit = true :=
  Nat.isDigit_of_mem_toDigits (by decide) (by decide) h

theorem decimal_ne_nil (n : Nat) : decimal n ≠ [] := Nat.toDigits_ne_nil

theorem ofDigits?_decimal (n : Nat) : ofDigits? (decimal n) = some n := by
  have hd : (decimal n).all Char.isDigit = true :=
    List.all_eq_true.2 fun _ hc => isDigit_of_mem_decimal hc
  rw [ofDigits?, if_pos ⟨decimal_ne_nil n, hd⟩, decimal,
    Nat.ofDigitChars_toDigits (by decide) (by decide)]

end SharedCells.Numeral
