/-
# SharedCells.Proofs.Rate.Rounding -- what a rounded number is worth

Rounding to a natural number is told by `Nearest`: no other number is closer, and a tie goes to the
even one. That determines it and makes it monotone, whatever is computed on the way.

A magnitude is rounded on a grid, which gets coarser with each power of two. `rounded` is the
number on the grid, as if there were no greatest one, and `round_cases` says that this is the
number `Binary64.round` stands for unless it reaches 2^1024. On the grid:

* `rounded_mono` : a greater magnitude is not rounded to a smaller number, though the grid changes.
* `rounded_error` : from 2^-1022 on, rounding moves a number by at most 2^-53 of itself.
* `rounded_natCast` : natural numbers below 2^53 stay as they are.
-/

import Mathlib.Algebra.Order.Field.Power
import Mathlib.Data.Rat.Cast.Order
import Mathlib.Tactic.Linarith
import Mathlib.Tactic.NormNum
import Mathlib.Tactic.Positivity
import Mathlib.Tactic.Ring
import SharedCells.Binary64

namespace SharedCells

/-! ## The nearest natural number -/

/-- **`Nearest n q`** -- `n` is the natural number nearest to `q`, the even one of two. -/
structure Nearest (n : ℕ) (q : ℚ) : Prop where
  close : |q - n| ≤ 1 / 2
  even : |q - n| = 1 / 2 → n % 2 = 0

theorem nearest_natCast (n : ℕ) : Nearest n n where
  close := by norm_num
  even := by norm_num

theorem Nearest.mono {m n : ℕ} {p q : ℚ} (hm : Nearest m p) (hn : Nearest n q) (h : p ≤ q) :
    m ≤ n := by
  by_contra hlt
  have hsucc : (n : ℚ) + 1 ≤ m := by exact_mod_cast Nat.lt_of_not_le hlt
  have hp := (abs_le.mp hm.close).1
  have hq := (abs_le.mp hn.close).2
  -- There is only room for one number between the two, and it is a tie for both.
  have hpm : p - m = -(1 / 2) := by linarith
  have hqn : q - n = 1 / 2 := by linarith
  have heven := hm.even (by rw [hpm]; norm_num)
  have heven' := hn.even (by rw [hqn]; norm_num)
  have heq : (m : ℚ) = n + 1 := by linarith
  have hnext : m = n + 1 := by exact_mod_cast heq
  omega

theorem Nearest.unique {m n : ℕ} {q : ℚ} (hm : Nearest m q) (hn : Nearest n q) : m = n :=
  le_antisymm (hm.mono hn le_rfl) (hn.mono hm le_rfl)

/-- Below the middle between two numbers the lower one is nearest, and in the middle if it is
even. -/
theorem nearest_lower {k : ℕ} {r : ℚ} (h0 : 0 ≤ r) (h : r < 1 / 2 ∨ r = 1 / 2 ∧ k % 2 = 0) :
    Nearest k (k + r) := by
  have hdistance : |(k : ℚ) + r - k| = r := by rw [add_sub_cancel_left, abs_of_nonneg h0]
  refine ⟨?_, fun htie => ?_⟩
  · rw [hdistance]
    exact h.elim le_of_lt fun h => h.1.le
  · rw [hdistance] at htie
    exact h.elim (fun h => absurd htie h.ne) And.right

theorem nearest_upper {k : ℕ} {r : ℚ} (h1 : r ≤ 1)
    (h : 1 / 2 < r ∨ r = 1 / 2 ∧ (k + 1) % 2 = 0) : Nearest (k + 1) (k + r) := by
  have hdistance : |(k : ℚ) + r - (k + 1 : ℕ)| = 1 - r := by
    rw [Nat.cast_succ, add_sub_add_left_eq_sub, abs_sub_comm, abs_of_nonneg (sub_nonneg.mpr h1)]
  refine ⟨?_, fun htie => ?_⟩
  · rw [hdistance]
    rcases h with h | h <;> linarith
  · rw [hdistance] at htie
    rcases h with h | h
    · linarith
    · exact h.2

/-- **`roundDiv_nearest`** -- comparing twice the remainder with the divisor finds the nearest. -/
theorem roundDiv_nearest (n : ℕ) {d : ℕ} (hd : 0 < d) : Nearest (roundDiv n d) ((n : ℚ) / d) := by
  have hdq : (0 : ℚ) < d := by exact_mod_cast hd
  have hsplit : (n : ℚ) / d = (n / d : ℕ) + ((n % d : ℕ) : ℚ) / d := by
    have hmod : ((n / d : ℕ) : ℚ) * d + (n % d : ℕ) = n := by exact_mod_cast Nat.div_add_mod' n d
    rw [← hmod, add_div, mul_div_cancel_right₀ _ hdq.ne']
  have hnonneg : (0 : ℚ) ≤ ((n % d : ℕ) : ℚ) / d := by positivity
  have hone : ((n % d : ℕ) : ℚ) / d ≤ 1 := by
    rw [div_le_one hdq]
    exact_mod_cast (Nat.mod_lt n hd).le
  have hlow : 2 * (n % d) < d ↔ ((n % d : ℕ) : ℚ) / d < 1 / 2 := by
    rw [div_lt_iff₀ hdq, one_div_mul_eq_div, lt_div_iff₀' two_pos]
    exact_mod_cast Iff.rfl
  have hhigh : d < 2 * (n % d) ↔ 1 / 2 < ((n % d : ℕ) : ℚ) / d := by
    rw [lt_div_iff₀ hdq, one_div_mul_eq_div, div_lt_iff₀' two_pos]
    exact_mod_cast Iff.rfl
  rw [hsplit, roundDiv]
  split
  case isTrue h => exact nearest_lower hnonneg (.inl (hlow.mp h))
  case isFalse h =>
    split
    case isTrue h' => exact nearest_upper hone (.inl (hhigh.mp h'))
    case isFalse h' =>
      have htie : ((n % d : ℕ) : ℚ) / d = 1 / 2 :=
        le_antisymm (not_lt.mp (hhigh.not.mp h')) (not_lt.mp (hlow.not.mp h))
      split
      case isTrue heven => exact nearest_lower hnonneg (.inr ⟨htie, heven⟩)
      case isFalse hodd => exact nearest_upper hone (.inr ⟨htie, by omega⟩)

namespace Binary64

/-! ## Powers of two -/

theorem two_zpow_pos (e : ℤ) : (0 : ℚ) < 2 ^ e := zpow_pos (by norm_num) e

theorem two_zpow_le_iff {a b : ℤ} : (2 : ℚ) ^ a ≤ 2 ^ b ↔ a ≤ b :=
  zpow_le_zpow_iff_right₀ (by norm_num)

theorem two_zpow_lt_iff {a b : ℤ} : (2 : ℚ) ^ a < 2 ^ b ↔ a < b :=
  zpow_lt_zpow_iff_right₀ (by norm_num)

theorem two_zpow_add (a b : ℤ) : (2 : ℚ) ^ (a + b) = 2 ^ a * 2 ^ b :=
  zpow_add₀ (by norm_num) a b

theorem two_pow_mul (n : ℕ) (e : ℤ) : ((2 ^ n : ℕ) : ℚ) * 2 ^ e = 2 ^ (n + e) := by
  rw [two_zpow_add, zpow_natCast, Nat.cast_pow, Nat.cast_ofNat]

theorem mul_two_zpow_le {m n : ℕ} (h : m ≤ n) (e : ℤ) : (m : ℚ) * 2 ^ e ≤ n * 2 ^ e :=
  mul_le_mul_of_nonneg_right (Nat.cast_le.mpr h) (two_zpow_pos e).le

theorem mul_two_zpow_lt {m n : ℕ} (h : m < n) (e : ℤ) : (m : ℚ) * 2 ^ e < n * 2 ^ e :=
  mul_lt_mul_of_pos_right (Nat.cast_lt.mpr h) (two_zpow_pos e)

theorem two_zpow_of_nonneg {e : ℤ} (h : 0 ≤ e) : (2 : ℚ) ^ e = (2 ^ e.toNat : ℕ) := by
  rw [Nat.cast_pow, Nat.cast_ofNat, ← zpow_natCast, Int.toNat_of_nonneg h]

theorem two_zpow_of_neg {e : ℤ} (h : ¬ 0 ≤ e) : (2 : ℚ) ^ e = ((2 ^ (-e).toNat : ℕ) : ℚ)⁻¹ := by
  rw [← two_zpow_of_nonneg (by omega), zpow_neg, inv_inv]

theorem magnitude_eq (m : ℕ) (e : ℤ) : magnitude m e = m * 2 ^ e := by
  rw [magnitude]
  split
  case isTrue h =>
    rw [two_zpow_of_nonneg h, Nat.shiftLeft_eq, Rat.mkRat_one]
    push_cast
    rfl
  case isFalse h =>
    rw [two_zpow_of_neg h, Nat.one_shiftLeft, Rat.mkRat_eq_div, div_eq_mul_inv]
    rfl

theorem magnitude_nonneg (m : ℕ) (e : ℤ) : 0 ≤ magnitude m e := by
  rw [magnitude_eq]
  exact mul_nonneg (Nat.cast_nonneg m) (two_zpow_pos e).le

/-- A magnitude as a fraction of natural numbers. -/
theorem eq_fraction {q : ℚ} (hq : 0 ≤ q) : q = (q.num.natAbs : ℚ) / q.den := by
  have hnum : ((q.num.natAbs : ℤ) : ℚ) = q.num := by
    rw [Int.natAbs_of_nonneg (Rat.num_nonneg.mpr hq)]
  rw [← Int.cast_natCast (q.num.natAbs), hnum, Rat.num_div_den]

/-- **`roundAt_nearest`** -- `roundAt` rounds in units of a power of two. -/
theorem roundAt_nearest {q : ℚ} (hq : 0 ≤ q) (e : ℤ) : Nearest (roundAt q e) (q / 2 ^ e) := by
  rw [roundAt]
  split
  case isTrue h =>
    have hden : 0 < q.den <<< e.toNat := by
      rw [Nat.shiftLeft_eq]
      exact Nat.mul_pos q.den_pos (Nat.two_pow_pos _)
    have hround := roundDiv_nearest q.num.natAbs hden
    rw [Nat.shiftLeft_eq] at hround ⊢
    rw [Nat.cast_mul, ← two_zpow_of_nonneg h, ← div_div, ← eq_fraction hq] at hround
    exact hround
  case isFalse h =>
    have hround := roundDiv_nearest (q.num.natAbs <<< (-e).toNat) q.den_pos
    rw [Nat.shiftLeft_eq] at hround ⊢
    rw [Nat.cast_mul, mul_div_right_comm, ← eq_fraction hq] at hround
    rw [two_zpow_of_neg h, div_inv_eq_mul]
    exact hround

/-- Is the power of two at most the fraction? Both sides are compared as natural numbers. -/
theorem reached_iff {n d : ℕ} (hd : 0 < d) (e : ℤ) :
    (if 0 ≤ e then decide (d <<< e.toNat ≤ n) else decide (d ≤ n <<< (-e).toNat)) = true ↔
      (2 : ℚ) ^ e ≤ (n : ℚ) / d := by
  have hdq : (0 : ℚ) < d := by exact_mod_cast hd
  rw [le_div_iff₀ hdq]
  split
  case isTrue h =>
    rw [decide_eq_true_eq, Nat.shiftLeft_eq, two_zpow_of_nonneg h, mul_comm d]
    exact_mod_cast Iff.rfl
  case isFalse h =>
    have hpos : (0 : ℚ) < ((2 ^ (-e).toNat : ℕ) : ℚ) := by positivity
    rw [decide_eq_true_eq, Nat.shiftLeft_eq, two_zpow_of_neg h, inv_mul_le_iff₀ hpos, mul_comm n]
    exact_mod_cast Iff.rfl

/-- **`log2_bounds`** -- a magnitude lies between two powers of two. -/
theorem log2_bounds {q : ℚ} (hq : 0 < q) : (2 : ℚ) ^ log2 q ≤ q ∧ q < 2 ^ (log2 q + 1) := by
  have hn : q.num.natAbs ≠ 0 := Int.natAbs_ne_zero.mpr (Rat.num_pos.mpr hq).ne'
  generalize hguess : (q.num.natAbs.log2 : ℤ) - q.den.log2 = guess
  have hnum := Nat.log2_self_le hn
  have hnum' := Nat.lt_log2_self (n := q.num.natAbs)
  have hden := Nat.log2_self_le q.den_nz
  have hden' := Nat.lt_log2_self (n := q.den)
  have hdq : (0 : ℚ) < q.den := by exact_mod_cast q.den_pos
  have hfraction := eq_fraction hq.le
  -- The difference of the logarithms is at most one too great.
  have hbelow : (2 : ℚ) ^ (guess - 1) ≤ q := by
    rw [hfraction, le_div_iff₀ hdq]
    calc (2 : ℚ) ^ (guess - 1) * q.den
        ≤ 2 ^ (guess - 1) * 2 ^ ((q.den.log2 : ℤ) + 1) := by
          gcongr
          exact_mod_cast hden'.le
      _ = 2 ^ (q.num.natAbs.log2 : ℤ) := by
          rw [← two_zpow_add]
          congr 1
          omega
      _ ≤ q.num.natAbs := by exact_mod_cast hnum
  have habove : q < (2 : ℚ) ^ (guess + 1) := by
    rw [hfraction, div_lt_iff₀ hdq]
    calc (q.num.natAbs : ℚ)
        < 2 ^ ((q.num.natAbs.log2 : ℤ) + 1) := by exact_mod_cast hnum'
      _ = 2 ^ (guess + 1) * 2 ^ (q.den.log2 : ℤ) := by
          rw [← two_zpow_add]
          congr 1
          omega
      _ ≤ 2 ^ (guess + 1) * q.den := by
          gcongr
          exact_mod_cast hden
  have hreached := reached_iff (n := q.num.natAbs) q.den_pos guess
  rw [← hfraction] at hreached
  rw [log2, hguess]
  by_cases hle : (2 : ℚ) ^ guess ≤ q
  · rw [if_pos (hreached.mpr hle)]
    exact ⟨hle, habove⟩
  · rw [if_neg (fun h => hle (hreached.mp h)), sub_add_cancel]
    exact ⟨hbelow, lt_of_not_ge hle⟩

theorem log2_mono {p q : ℚ} (hp : 0 < p) (h : p ≤ q) : log2 p ≤ log2 q := by
  have hlt := (log2_bounds hp).1.trans_lt (h.trans_lt (log2_bounds (hp.trans_le h)).2)
  exact Int.lt_add_one_iff.mp (two_zpow_lt_iff.mp hlt)

/-! ## The grid -/

/-- **`step`** -- the exponent of the grid on which a magnitude is rounded. -/
def step (q : ℚ) : ℤ := max leastExponent (log2 q - 52)

/-- **`rounded`** -- the number on its grid nearest to a magnitude. -/
def rounded (q : ℚ) : ℚ := roundAt q (step q) * 2 ^ step q

variable {p q : ℚ}

theorem step_mono (hp : 0 < p) (h : p ≤ q) : step p ≤ step q :=
  max_le_max_left _ (Int.sub_le_sub_right (log2_mono hp h) 52)

theorem leastExponent_le_step (q : ℚ) : leastExponent ≤ step q := le_max_left _ _

theorem rounded_zero : rounded 0 = 0 := by
  have h : roundAt 0 (step 0) = 0 := by decide
  rw [rounded, h, Nat.cast_zero, zero_mul]

/-- A magnitude has at most 53 bits on its grid, as long as it is not rounded up to one more. -/
theorem roundAt_le (hq : 0 < q) : roundAt q (step q) ≤ 2 ^ 53 := by
  refine (roundAt_nearest hq.le _).mono (nearest_natCast (2 ^ 53)) ?_
  rw [div_le_iff₀ (two_zpow_pos _)]
  calc q ≤ 2 ^ (log2 q + 1) := (log2_bounds hq).2.le
    _ ≤ 2 ^ (53 + step q) := by
        have hstep : log2 q - 52 ≤ step q := le_max_right _ _
        exact two_zpow_le_iff.mpr (by omega)
    _ = (2 ^ 53 : ℕ) * 2 ^ step q := (two_pow_mul 53 _).symm

/-- It has no fewer, unless the grid is the finest one. -/
theorem le_roundAt (hq : 0 < q) (h : leastExponent < step q) : 2 ^ 52 ≤ roundAt q (step q) := by
  have hstep : step q = log2 q - 52 := by
    rw [step] at h ⊢
    omega
  refine (nearest_natCast (2 ^ 52)).mono (roundAt_nearest hq.le _) ?_
  rw [le_div_iff₀ (two_zpow_pos _)]
  calc ((2 ^ 52 : ℕ) : ℚ) * 2 ^ step q = 2 ^ (52 + step q) := two_pow_mul 52 _
    _ ≤ 2 ^ log2 q := two_zpow_le_iff.mpr (by omega)
    _ ≤ q := (log2_bounds hq).1

theorem rounded_nonneg (q : ℚ) : 0 ≤ rounded q :=
  mul_nonneg (Nat.cast_nonneg _) (two_zpow_pos _).le

/-- **`rounded_mono`** -- where the grid gets coarser, a power of two lies on both grids. -/
theorem rounded_mono (hp : 0 ≤ p) (h : p ≤ q) : rounded p ≤ rounded q := by
  rcases hp.eq_or_lt with rfl | hp
  · rw [rounded_zero]
    exact rounded_nonneg q
  have hq : 0 < q := hp.trans_le h
  rcases (step_mono hp h).eq_or_lt with hstep | hstep
  · rw [rounded, rounded, hstep]
    have hdiv : p / 2 ^ step q ≤ q / 2 ^ step q := div_le_div_of_nonneg_right h (two_zpow_pos _).le
    have hround := (roundAt_nearest hp.le (step q)).mono (roundAt_nearest hq.le (step q)) hdiv
    exact mul_two_zpow_le hround _
  · have hcoarse : leastExponent < step q := (leastExponent_le_step p).trans_lt hstep
    calc rounded p
        ≤ (2 ^ 53 : ℕ) * 2 ^ step p := mul_two_zpow_le (roundAt_le hp) _
      _ = 2 ^ (53 + step p) := two_pow_mul 53 _
      _ ≤ 2 ^ (52 + step q) := two_zpow_le_iff.mpr (by omega)
      _ = (2 ^ 52 : ℕ) * 2 ^ step q := (two_pow_mul 52 _).symm
      _ ≤ rounded q := mul_two_zpow_le (le_roundAt hq hcoarse) _

/-- **`rounded_error`** -- a magnitude that is not too small has 53 good bits. -/
theorem rounded_error (h : (2 : ℚ) ^ (-1022 : ℤ) ≤ q) : |rounded q - q| ≤ q * 2 ^ (-53 : ℤ) := by
  have hq : 0 < q := (two_zpow_pos _).trans_le h
  have hlog : -1022 < log2 q + 1 := two_zpow_lt_iff.mp (h.trans_lt (log2_bounds hq).2)
  have hstep : step q = log2 q - 52 := by
    rw [step, leastExponent]
    omega
  have hunit : (0 : ℚ) < 2 ^ step q := two_zpow_pos _
  have hclose := (roundAt_nearest hq.le (step q)).close
  have hscaled : q - rounded q = (q / 2 ^ step q - roundAt q (step q)) * 2 ^ step q := by
    rw [rounded, sub_mul, div_mul_cancel₀ _ hunit.ne']
  calc |rounded q - q|
      = |q / 2 ^ step q - roundAt q (step q)| * 2 ^ step q := by
        rw [abs_sub_comm, hscaled, abs_mul, abs_of_pos hunit]
    _ ≤ 1 / 2 * 2 ^ step q := mul_le_mul_of_nonneg_right hclose hunit.le
    _ = 2 ^ log2 q * 2 ^ (-53 : ℤ) := by
        rw [hstep, show log2 q - 52 = 1 + (log2 q + -53) by ring, two_zpow_add, two_zpow_add,
          zpow_one, ← mul_assoc, one_div, inv_mul_cancel₀ two_ne_zero, one_mul]
    _ ≤ q * 2 ^ (-53 : ℤ) := mul_le_mul_of_nonneg_right (log2_bounds hq).1 (two_zpow_pos _).le

/-- A magnitude does not grow much when it is rounded, and one below 1 stays small. -/
theorem rounded_le_two_mul {b : ℚ} (hq : 0 ≤ q) (h : q ≤ b) (hb : 1 ≤ b) : rounded q ≤ 2 * b := by
  have hsmall : (2 : ℚ) ^ (-1022 : ℤ) ≤ b := (two_zpow_le_iff.mpr (by decide)).trans
    ((zpow_zero (2 : ℚ)).trans_le hb)
  have hunit : (2 : ℚ) ^ (-53 : ℤ) ≤ 1 := (two_zpow_le_iff.mpr (by decide)).trans_eq
    (zpow_zero (2 : ℚ))
  have herror : b * 2 ^ (-53 : ℤ) ≤ b := mul_le_of_le_one_right (hq.trans h) hunit
  have hclose := (abs_le.mp (rounded_error hsmall)).2
  calc rounded q ≤ rounded b := rounded_mono hq h
    _ ≤ 2 * b := by linarith

/-- **`rounded_natCast`** -- a natural number below 2^53 is on its grid. -/
theorem rounded_natCast {n : ℕ} (h : n < 2 ^ 53) : rounded n = n := by
  rcases Nat.eq_zero_or_pos n with rfl | hn
  · exact_mod_cast rounded_zero
  have hq : (0 : ℚ) < n := by exact_mod_cast hn
  have hlog : log2 (n : ℚ) < 53 := by
    have hlt : (n : ℚ) < 2 ^ (53 : ℤ) := by exact_mod_cast h
    exact two_zpow_lt_iff.mp ((log2_bounds hq).1.trans_lt hlt)
  have hstep : step (n : ℚ) ≤ 0 := by
    rw [step, leastExponent]
    omega
  have hscale : (2 : ℚ) ^ (-step (n : ℚ)) = (2 ^ (-step (n : ℚ)).toNat : ℕ) :=
    two_zpow_of_nonneg (by omega)
  have hunits : (n : ℚ) / 2 ^ step (n : ℚ) = (n * 2 ^ (-step (n : ℚ)).toNat : ℕ) := by
    rw [Nat.cast_mul, ← hscale, zpow_neg, div_eq_mul_inv]
  have hround := roundAt_nearest hq.le (step (n : ℚ))
  rw [hunits] at hround
  rw [rounded, hround.unique (nearest_natCast _), ← hunits, div_mul_cancel₀ _ (two_zpow_pos _).ne']

/-! ## Rounding -/

/-- One bit too many: the mantissa is halved, and the exponent raised. -/
theorem round_of_carry (negative : Bool) (hq : 0 < q) (h : roundAt q (step q) = 2 ^ 53) :
    round negative q = if greatestExponent < step q + 1 then infinite negative
      else finite negative (2 ^ 52) (step q + 1) := by
  have hcarry : roundAt q (max leastExponent (log2 q - 52)) = 1 <<< precision := h
  rw [round, if_neg hq.ne']
  simp only [hcarry, ↓reduceIte]
  rfl

theorem round_of_fits (negative : Bool) (hq : 0 < q) (h : roundAt q (step q) ≠ 2 ^ 53) :
    round negative q = if greatestExponent < step q then infinite negative
      else finite negative (roundAt q (step q)) (step q) := by
  have hfits : roundAt q (max leastExponent (log2 q - 52)) ≠ 1 <<< precision := h
  rw [round, if_neg hq.ne']
  simp only [hfits, ↓reduceIte]
  rfl

/-- **`round_cases`** -- a magnitude is rounded to the number on its grid, or to infinity if that
number is too great. -/
theorem round_cases (negative : Bool) (hq : 0 ≤ q) :
    2 ^ (1024 : ℤ) ≤ rounded q ∧ round negative q = infinite negative ∨
      rounded q < 2 ^ (1024 : ℤ) ∧
        ∃ m e, round negative q = finite negative m e ∧ magnitude m e = rounded q := by
  rcases hq.eq_or_lt with rfl | hq
  · refine Or.inr ⟨?_, 0, leastExponent, rfl, ?_⟩
    · rw [rounded_zero]
      exact two_zpow_pos _
    · rw [rounded_zero, magnitude_eq, Nat.cast_zero, zero_mul]
  by_cases hcarry : roundAt q (step q) = 2 ^ 53
  · have hvalue : rounded q = 2 ^ (53 + step q) := by
      rw [rounded, hcarry]
      exact two_pow_mul 53 _
    have hraised : magnitude (2 ^ 52) (step q + 1) = 2 ^ (53 + step q) := by
      rw [magnitude_eq, show 53 + step q = 52 + (step q + 1) by ring]
      exact two_pow_mul 52 _
    rw [round_of_carry negative hq hcarry, hvalue, two_zpow_le_iff, two_zpow_lt_iff,
      greatestExponent]
    by_cases hgreat : 971 < step q + 1
    · exact Or.inl ⟨by omega, if_pos hgreat⟩
    · exact Or.inr ⟨by omega, 2 ^ 52, step q + 1, if_neg hgreat, hraised⟩
  · rw [round_of_fits negative hq hcarry]
    by_cases hgreat : greatestExponent < step q
    · refine Or.inl ⟨?_, if_pos hgreat⟩
      have hfull : 2 ^ 52 ≤ roundAt q (step q) := le_roundAt hq (lt_trans (by decide) hgreat)
      rw [greatestExponent] at hgreat
      calc (2 : ℚ) ^ (1024 : ℤ) ≤ 2 ^ (52 + step q) := two_zpow_le_iff.mpr (by omega)
        _ = (2 ^ 52 : ℕ) * 2 ^ step q := (two_pow_mul 52 _).symm
        _ ≤ rounded q := mul_two_zpow_le hfull _
    · refine Or.inr ⟨?_, roundAt q (step q), step q, if_neg hgreat, magnitude_eq _ _⟩
      have hfits : roundAt q (step q) < 2 ^ 53 := lt_of_le_of_ne (roundAt_le hq) hcarry
      rw [greatestExponent] at hgreat
      calc rounded q < (2 ^ 53 : ℕ) * 2 ^ step q := mul_two_zpow_lt hfits _
        _ = 2 ^ (53 + step q) := two_pow_mul 53 _
        _ ≤ 2 ^ (1024 : ℤ) := two_zpow_le_iff.mpr (by omega)

/-- A finite number of 64 bits has the sign that its first bit says, and fits the format. -/
theorem exists_of_isFinite {bits : BitVec 64} (h : ∃ s m e, ofBits bits = finite s m e) :
    ∃ m e, ofBits bits = finite bits.msb m e ∧ m < 2 ^ 53 ∧ e ≤ greatestExponent := by
  have hfield : bits.toNat >>> 52 % (1 <<< 11) < 2 ^ 11 := Nat.mod_lt _ (by decide)
  have hfraction : bits.toNat % (1 <<< 52) < 2 ^ 52 := Nat.mod_lt _ (by decide)
  have hshift : 1 <<< 52 = 2 ^ 52 := rfl
  obtain ⟨s, m, e, heq⟩ := h
  rw [ofBits] at heq ⊢
  split at heq
  case isTrue => split at heq <;> exact absurd heq nofun
  case isFalse hspecial =>
    rw [if_neg hspecial]
    split
    case isTrue => exact ⟨_, _, rfl, by omega, by decide⟩
    case isFalse => exact ⟨_, _, rfl, by omega, by rw [greatestExponent]; omega⟩

theorem magnitude_lt {m : ℕ} {e : ℤ} (hm : m < 2 ^ 53) (he : e ≤ greatestExponent) :
    magnitude m e < 2 ^ (1024 : ℤ) := by
  rw [greatestExponent] at he
  calc magnitude m e = m * 2 ^ e := magnitude_eq m e
    _ < (2 ^ 53 : ℕ) * 2 ^ e := mul_two_zpow_lt hm e
    _ = 2 ^ (53 + e) := two_pow_mul 53 e
    _ ≤ 2 ^ (1024 : ℤ) := two_zpow_le_iff.mpr (by omega)

/-- **`toRat_ofBits_lt`** -- no number of 64 bits reaches 2^1024. -/
theorem toRat_ofBits_lt (bits : BitVec 64) : (ofBits bits).toRat < 2 ^ (1024 : ℤ) := by
  by_cases hfinite : ∃ s m e, ofBits bits = finite s m e
  · obtain ⟨m, e, heq, hm, he⟩ := exists_of_isFinite hfinite
    rw [heq, toRat]
    split
    · exact (neg_nonpos.mpr (magnitude_nonneg m e)).trans_lt (two_zpow_pos _)
    · exact magnitude_lt hm he
  · have hzero : (ofBits bits).toRat = 0 := by
      unfold toRat
      split
      case h_1 heq => exact absurd ⟨_, _, _, heq⟩ hfinite
      case h_2 => rfl
    rw [hzero]
    exact two_zpow_pos _

end Binary64

end SharedCells
