/-
# SharedCells.Proofs.Text.Radix -- digits in a base, read back

A number is written digit by digit, the last digit being the remainder by the base. `Radix.value?`
reads digits from the left and knows nothing of how they are written; leading zeros do not matter to
it, and no digits at all are worth zero.

* `digit_induction` : a number is known by its digits, one after another.
* `digits_concat` : one more digit comes behind the others.
* `value?_digits` : what is written in a base is read in it.
* `value?_dropWhile_zero` : without its leading zeros a number is the same.

`Radix.numeral?` reads the same digits, but only where they stand as they are written: in the case
of the base, and without leading zeros.

* `numeral?_eq_some_iff` : it reads what is written, and nothing else.
* `takeNumeral?_append` : so it does where a text goes on behind the digits.
-/

import Mathlib.Data.List.Basic
import Mathlib.Data.List.Induction
import SharedCells.Proofs.Text.Cut
import SharedCells.Text.Debug

namespace SharedCells

namespace Radix

/-- The base. -/
def base : Radix → Nat
  | decimal => 10
  | lowerHex | upperHex => 16

/-- The value of a digit in either case. -/
def digit? : Radix → Char → Option Nat
  | decimal => Numeral.digit?
  | lowerHex | upperHex => Numeral.hexDigit?

/-- The character of a digit. -/
def letter : Radix → Nat → Char
  | decimal, d | lowerHex, d => d.digitChar
  | upperHex, d => d.digitChar.toUpper

/-- **`value?`** -- the number that digits denote. -/
def value? (r : Radix) (cs : List Char) : Option Nat :=
  (cs.mapM r.digit?).map (List.foldl (fun n d => r.base * n + d) 0)

/-- The characters that digits are written as. -/
def letters : Radix → List Char
  | decimal => "0123456789".toList
  | lowerHex => "0123456789abcdef".toList
  | upperHex => "0123456789ABCDEF".toList

/-- **`IsNumeral`** -- digits as they are written. -/
structure IsNumeral (r : Radix) (cs : List Char) : Prop where
  ne_nil : cs ≠ []
  letters : cs ⊆ r.letters
  /-- A zero leads nothing but itself. -/
  zero : cs.head? = some '0' → cs = ['0']

instance (r : Radix) (cs : List Char) : Decidable (r.IsNumeral cs) :=
  decidable_of_iff (cs ≠ [] ∧ cs ⊆ r.letters ∧ (cs.head? = some '0' → cs = ['0']))
    ⟨fun ⟨ne_nil, letters, zero⟩ => ⟨ne_nil, letters, zero⟩,
      fun ⟨ne_nil, letters, zero⟩ => ⟨ne_nil, letters, zero⟩⟩

/-- **`numeral?`** -- the number that digits denote, if they stand as they are written. -/
def numeral? (r : Radix) (cs : List Char) : Option Nat :=
  if r.IsNumeral cs then r.value? cs else none

/-- **`takeNumeral?`** -- the number that a text begins with, and the rest of the text. -/
def takeNumeral? (r : Radix) (cs : List Char) : Option (Nat × List Char) :=
  (r.numeral? (cs.takeWhile (· ∈ r.letters))).map fun n => (n, cs.dropWhile (· ∈ r.letters))

variable {r : Radix}

theorem one_lt_base (r : Radix) : 1 < r.base := by cases r <;> decide

theorem digit?_letter {d : Nat} (h : d < r.base) : r.digit? (r.letter d) = some d := by
  have hten : ∀ d < 10, Numeral.digit? d.digitChar = some d := by decide
  have hsixteen : ∀ d < 16, Numeral.hexDigit? d.digitChar = some d := by decide
  have hupper : ∀ d < 16, Numeral.hexDigit? d.digitChar.toUpper = some d := by decide
  cases r with
  | decimal => exact hten d h
  | lowerHex => exact hsixteen d h
  | upperHex => exact hupper d h

theorem letters_eq (r : Radix) : r.letters = (List.range r.base).map r.letter := by
  cases r <;> rfl

theorem mem_letters_iff {c : Char} : c ∈ r.letters ↔ ∃ d < r.base, c = r.letter d := by
  rw [letters_eq, List.mem_map]
  constructor
  · rintro ⟨d, hd, rfl⟩
    exact ⟨d, List.mem_range.mp hd, rfl⟩
  · rintro ⟨d, hd, rfl⟩
    exact ⟨d, List.mem_range.mpr hd, rfl⟩

theorem letter_zero (r : Radix) : r.letter 0 = '0' := by cases r <;> rfl

theorem digit?_zero (r : Radix) : r.digit? '0' = some 0 := by cases r <;> decide

/-- One more digit at the end. -/
theorem value?_concat {cs : List Char} {c : Char} {n d : Nat} (hn : r.value? cs = some n)
    (hd : r.digit? c = some d) : r.value? (cs ++ [c]) = some (r.base * n + d) := by
  obtain ⟨ds, hds, rfl⟩ := Option.map_eq_some_iff.mp hn
  simp [value?, List.mapM_append, hds, hd]

theorem value?_zero_cons (r : Radix) (cs : List Char) : r.value? ('0' :: cs) = r.value? cs := by
  rw [value?, value?, List.mapM_cons, digit?_zero]
  cases cs.mapM r.digit? with
  | none => rfl
  | some ds => simp

/-- **`value?_dropWhile_zero`** -- leading zeros do not change a number. -/
theorem value?_dropWhile_zero (r : Radix) (cs : List Char) :
    r.value? (cs.dropWhile (· = '0')) = r.value? cs := by
  induction cs with
  | nil => rfl
  | cons c cs ih =>
      by_cases hc : c = '0'
      · subst hc
        rw [List.dropWhile_cons_of_pos (by decide), ih, value?_zero_cons]
      · rw [List.dropWhile_cons_of_neg (by simpa using hc)]

theorem value?_replicate_zero (r : Radix) (k : Nat) (cs : List Char) :
    r.value? (List.replicate k '0' ++ cs) = r.value? cs := by
  induction k with
  | zero => rfl
  | succ k ih => rw [List.replicate_succ, List.cons_append, value?_zero_cons, ih]

/-- **`digit_induction`** -- a number is a digit, or a number before it with one more digit. -/
theorem digit_induction (r : Radix) {motive : Nat → Prop} (n : Nat)
    (digit : ∀ d < r.base, motive d)
    (concat : ∀ n d, n ≠ 0 → d < r.base → motive n → motive (r.base * n + d)) : motive n := by
  induction n using Nat.strongRecOn with
  | _ n ih =>
      have hbase := r.one_lt_base
      rcases Nat.lt_or_ge n r.base with hlt | hge
      · exact digit n hlt
      · have hquotient : n / r.base ≠ 0 := Nat.ne_zero_of_lt (Nat.div_pos hge (by omega))
        have hmod : n % r.base < r.base := Nat.mod_lt n (by omega)
        have hnumber := concat _ _ hquotient hmod (ih _ (Nat.div_lt_self (by omega) hbase))
        rwa [Nat.div_add_mod] at hnumber

/-- The digits before the last one are a numeral too, and no zero leads them. -/
theorem IsNumeral.front {front : List Char} {c : Char} (h : r.IsNumeral (front ++ [c]))
    (hfront : front ≠ []) : r.IsNumeral front ∧ front.head? ≠ some '0' := by
  have hhead : front.head? ≠ some '0' := by
    intro hzero
    have hwhole := h.zero (by rw [List.head?_append_of_ne_nil _ hfront, hzero])
    have hlength := congrArg List.length hwhole
    have hpos := List.length_pos_iff.mpr hfront
    simp only [List.length_append, List.length_cons, List.length_nil] at hlength
    omega
  have hletters : front ⊆ r.letters :=
    List.Subset.trans (List.subset_append_left front _) h.letters
  exact ⟨⟨hfront, hletters, fun hzero => absurd hzero hhead⟩, hhead⟩

end Radix

namespace DebugFormat

variable (f : DebugFormat) {n : Nat}

theorem digits_of_lt (h : n < f.radix.base) : f.digits n = [f.radix.letter n] := by
  rw [digits]
  revert h
  cases f.radix with
  | decimal => exact Nat.toDigits_of_lt_base
  | lowerHex => exact Nat.toDigits_of_lt_base
  | upperHex =>
      intro h
      exact congrArg (List.map Char.toUpper) (Nat.toDigits_of_lt_base h)

/-- **`digits_concat`** -- one more digit comes behind the others. -/
theorem digits_concat (hn : n ≠ 0) {d : Nat} (hd : d < f.radix.base) :
    f.digits (f.radix.base * n + d) = f.digits n ++ [f.radix.letter d] := by
  have hpos : 0 < n := Nat.pos_of_ne_zero hn
  have hnumbers : Nat.toDigits f.radix.base (f.radix.base * n + d) =
      Nat.toDigits f.radix.base n ++ Nat.toDigits f.radix.base d :=
    (Nat.toDigits_append_toDigits f.radix.one_lt_base hpos hd).symm
  rw [← digits_of_lt f hd, digits, digits, digits]
  revert hnumbers
  cases f.radix with
  | decimal => exact id
  | lowerHex => exact id
  | upperHex =>
      intro hnumbers
      exact (congrArg (List.map Char.toUpper) hnumbers).trans List.map_append

/-- **`value?_digits`** -- what is written in a base is read in it. -/
theorem value?_digits (n : Nat) : f.radix.value? (f.digits n) = some n := by
  induction n using Radix.digit_induction f.radix with
  | digit d hd =>
      rw [digits_of_lt f hd, Radix.value?]
      simp [Radix.digit?_letter hd]
  | concat n d hn hd ih =>
      rw [digits_concat f hn hd, Radix.value?_concat ih (Radix.digit?_letter hd)]

theorem digits_ne_nil (n : Nat) : f.digits n ≠ [] := by
  induction n using Radix.digit_induction f.radix with
  | digit d hd =>
      rw [digits_of_lt f hd]
      exact List.cons_ne_nil _ _
  | concat n d hn hd =>
      rw [digits_concat f hn hd]
      exact List.concat_ne_nil _ _

/-- All that is written is digits of the base. -/
theorem exists_letter_of_mem_digits {c : Char} (hc : c ∈ f.digits n) :
    ∃ d < f.radix.base, c = f.radix.letter d := by
  induction n using Radix.digit_induction f.radix with
  | digit d hd =>
      rw [digits_of_lt f hd] at hc
      exact ⟨d, hd, List.mem_singleton.mp hc⟩
  | concat n d hn hd ih =>
      rw [digits_concat f hn hd] at hc
      rcases List.mem_append.mp hc with hfront | hlast
      · exact ih hfront
      · exact ⟨d, hd, List.mem_singleton.mp hlast⟩

/-! ## Numerals -/

theorem digits_zero : f.digits 0 = ['0'] := by
  have hbase := f.radix.one_lt_base
  rw [digits_of_lt f (by omega), Radix.letter_zero]

/-- Only zero begins with a zero. -/
theorem eq_zero_of_head?_digits (h : (f.digits n).head? = some '0') : n = 0 := by
  induction n using Radix.digit_induction f.radix with
  | digit d hd =>
      rw [digits_of_lt f hd] at h
      have hzero : f.radix.digit? '0' = some d := Option.some.inj h ▸ Radix.digit?_letter hd
      exact Option.some.inj (hzero.symm.trans f.radix.digit?_zero)
  | concat n d hn hd ih =>
      rw [digits_concat f hn hd, List.head?_append_of_ne_nil _ (digits_ne_nil f n)] at h
      exact absurd (ih h) hn

theorem isNumeral_digits (n : Nat) : f.radix.IsNumeral (f.digits n) where
  ne_nil := digits_ne_nil f n
  letters _ hc := Radix.mem_letters_iff.mpr (exists_letter_of_mem_digits f hc)
  zero h := by rw [eq_zero_of_head?_digits f h, digits_zero]

/-- **`exists_digits_of_isNumeral`** -- every numeral is written for some number. -/
theorem exists_digits_of_isNumeral {cs : List Char} (h : f.radix.IsNumeral cs) :
    ∃ n, cs = f.digits n := by
  induction cs using List.reverseRecOn with
  | nil => exact absurd rfl h.ne_nil
  | append_singleton front c ih =>
      obtain ⟨d, hd, rfl⟩ :=
        Radix.mem_letters_iff.mp (h.letters (List.mem_append_right front List.mem_cons_self))
      by_cases hfront : front = []
      · exact ⟨d, by rw [hfront, digits_of_lt f hd, List.nil_append]⟩
      · obtain ⟨hnumeral, hhead⟩ := h.front hfront
        obtain ⟨n, rfl⟩ := ih hnumeral
        have hn : n ≠ 0 := by
          rintro rfl
          exact hhead (by rw [digits_zero, List.head?_cons])
        exact ⟨f.radix.base * n + d, (digits_concat f hn hd).symm⟩

/-- **`numeral?_eq_some_iff`** -- what is read as a number is what is written for it. -/
theorem numeral?_eq_some_iff {cs : List Char} :
    f.radix.numeral? cs = some n ↔ cs = f.digits n := by
  rw [Radix.numeral?]
  constructor
  · intro h
    split at h
    case isTrue hnumeral =>
      obtain ⟨m, rfl⟩ := exists_digits_of_isNumeral f hnumeral
      rw [Option.some.inj ((value?_digits f m).symm.trans h)]
    case isFalse => contradiction
  · rintro rfl
    rw [if_pos (isNumeral_digits f n), value?_digits]

theorem eq_of_takeNumeral? {cs rest : List Char} (h : f.radix.takeNumeral? cs = some (n, rest)) :
    cs = f.digits n ++ rest := by
  obtain ⟨m, hm, heq⟩ := Option.map_eq_some_iff.mp h
  obtain ⟨rfl, rfl⟩ := Prod.mk.inj heq
  rw [← (numeral?_eq_some_iff f).mp hm, List.takeWhile_append_dropWhile]

/-- **`takeNumeral?_append`** -- a number is read up to the first character that is no digit. -/
theorem takeNumeral?_append (n : Nat) {c : Char} (hc : c ∉ f.radix.letters) (rest : List Char) :
    f.radix.takeNumeral? (f.digits n ++ c :: rest) = some (n, c :: rest) := by
  have hdigits : ∀ d ∈ f.digits n, decide (d ∈ f.radix.letters) = true := fun d hd =>
    decide_eq_true ((isNumeral_digits f n).letters hd)
  have hstop : decide (c ∈ f.radix.letters) = false := decide_eq_false hc
  rw [Radix.takeNumeral?, Text.takeWhile_cut hdigits hstop, Text.dropWhile_cut hdigits hstop,
    (numeral?_eq_some_iff f).mpr rfl, Option.map_some]

end DebugFormat

end SharedCells
