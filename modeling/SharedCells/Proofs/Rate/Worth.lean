/-
# SharedCells.Proofs.Rate.Worth -- arithmetic on numbers that are not negative

`Worth x v` says what number a `Binary64` is worth that is not negative: a rational or, for the
infinite one, `⊤`. It leaves out what no order can see, which is the form of a number and the sign
of a zero.

The operations are then operations on what numbers are worth. `stored` is what becomes of a
magnitude that is rounded, `quotient` what becomes of a quotient; both keep the order, by
`stored_mono` and `quotient_mono`. A product and a quotient are worth what these say: `Worth.mul`,
`Worth.div`.
-/

import Mathlib.Algebra.Order.Monoid.Unbundled.WithTop
import SharedCells.Proofs.Rate.Rounding

namespace SharedCells

namespace Binary64

variable {p q : ℚ} {v w : WithTop ℚ}

/-! ## What becomes of a magnitude -/

/-- **`stored`** -- the number on its grid nearest to a magnitude, infinite from 2^1024 on. -/
def stored (q : ℚ) : WithTop ℚ := if rounded q < 2 ^ (1024 : ℤ) then (rounded q : ℚ) else ⊤

theorem stored_mono (hp : 0 ≤ p) (h : p ≤ q) : stored p ≤ stored q := by
  have hmono := rounded_mono hp h
  rw [stored, stored]
  split
  case isTrue =>
    split
    case isTrue => exact WithTop.coe_le_coe.mpr hmono
    case isFalse => exact le_top
  case isFalse hgreat => rw [if_neg fun hless => hgreat (hmono.trans_lt hless)]

theorem stored_nonneg (q : ℚ) : 0 ≤ stored q := by
  rw [stored]
  split
  · exact WithTop.coe_le_coe.mpr (rounded_nonneg q)
  · exact le_top

theorem stored_of_lt (h : rounded q < 2 ^ (1024 : ℤ)) : stored q = (rounded q : ℚ) := if_pos h

theorem stored_le_two_mul {b : ℚ} (hq : 0 ≤ q) (h : q ≤ b) (hb : 1 ≤ b)
    (hless : 2 * b < 2 ^ (1024 : ℤ)) : ∃ r : ℚ, stored q = (r : WithTop ℚ) ∧ r ≤ 2 * b :=
  have hle := rounded_le_two_mul hq h hb
  ⟨rounded q, stored_of_lt (hle.trans_lt hless), hle⟩

theorem stored_natCast {n : ℕ} (h : n < 2 ^ 53) : stored n = ((n : ℚ) : WithTop ℚ) := by
  have hrounded := rounded_natCast h
  have hless : rounded (n : ℚ) < 2 ^ (1024 : ℤ) := by
    calc rounded (n : ℚ) = n := hrounded
      _ < 2 ^ (53 : ℤ) := by exact_mod_cast h
      _ ≤ 2 ^ (1024 : ℤ) := two_zpow_le_iff.mpr (by decide)
  rw [stored_of_lt hless, hrounded]

/-- **`quotient`** -- what becomes of a quotient. -/
def quotient (v : WithTop ℚ) (d : ℚ) : WithTop ℚ :=
  match v with
  | none => ⊤
  | some q => stored (q / d)

theorem quotient_mono {c d : ℚ} (hv : 0 ≤ v) (h : v ≤ w) (hc : 0 < c) (hcd : c ≤ d) :
    quotient v d ≤ quotient w c := by
  cases w with
  | top => exact le_top
  | coe q =>
      cases v with
      | top => exact absurd (top_le_iff.mp h) (WithTop.coe_ne_top)
      | coe p =>
          have hp : 0 ≤ p := WithTop.coe_le_coe.mp hv
          have hpq : p ≤ q := WithTop.coe_le_coe.mp h
          exact stored_mono (div_nonneg hp (hc.le.trans hcd))
            (div_le_div₀ (hp.trans hpq) hpq hc hcd)

theorem quotient_nonneg {d : ℚ} : 0 ≤ quotient v d := by
  cases v with
  | top => exact le_top
  | coe q => exact stored_nonneg (q / d)

/-! ## What a number is worth -/

/-- **`Worth x v`** -- `x` is not negative, unless it is a zero, and `v` is its value. -/
inductive Worth : Binary64 → WithTop ℚ → Prop
  | infinite : Worth (infinite false) ⊤
  | finite {s : Bool} {m : ℕ} {e : ℤ} (hs : s = true → magnitude m e = 0) :
      Worth (finite s m e) (magnitude m e : ℚ)

/-- **`IsFinite`** -- neither infinite nor no number. -/
def IsFinite (x : Binary64) : Prop := ∃ s m e, x = finite s m e

/-- The sign of a zero does not count. -/
theorem toRat_eq_magnitude {s : Bool} {m : ℕ} {e : ℤ} (hs : s = true → magnitude m e = 0) :
    (finite s m e).toRat = magnitude m e := by
  rw [toRat]
  split
  case isTrue hneg => rw [hs hneg, neg_zero]
  case isFalse => rfl

theorem worth_toRat {x : Binary64} (hx : x.IsFinite) (h : 0 ≤ x.toRat) :
    Worth x (x.toRat : ℚ) := by
  obtain ⟨s, m, e, rfl⟩ := hx
  have hnonneg := magnitude_nonneg m e
  cases s with
  | false => exact Worth.finite nofun
  | true =>
      have hzero : magnitude m e = 0 := le_antisymm (neg_nonneg.mp h) hnonneg
      rw [toRat_eq_magnitude fun _ => hzero]
      exact Worth.finite fun _ => hzero

/-- A number that is worth a rational is a finite one. -/
theorem Worth.eq_finite {x : Binary64} (h : Worth x (q : ℚ)) :
    ∃ s m e, x = Binary64.finite s m e ∧ magnitude m e = q ∧ (s = true → q = 0) := by
  generalize hv : (q : WithTop ℚ) = v at h
  cases h with
  | infinite => exact absurd hv WithTop.coe_ne_top
  | @finite s m e hs =>
      have hq : q = magnitude m e := WithTop.coe_injective hv
      exact ⟨s, m, e, rfl, hq.symm, fun hneg => hq.trans (hs hneg)⟩

theorem Worth.nonneg {x : Binary64} (h : Worth x v) : 0 ≤ v := by
  cases h with
  | infinite => exact le_top
  | finite => exact WithTop.coe_le_coe.mpr (magnitude_nonneg _ _)

theorem worth_round {s : Bool} (hq : 0 ≤ q) (hs : s = true → q = 0) :
    Worth (round s q) (stored q) := by
  rcases round_cases s hq with ⟨hgreat, hround⟩ | ⟨hless, m, e, hround, hvalue⟩
  · have hpos : s = false := by
      by_contra hneg
      rw [hs (Bool.eq_true_of_not_eq_false hneg), rounded_zero] at hgreat
      exact absurd hgreat (not_le.mpr (two_zpow_pos _))
    rw [hround, hpos, stored, if_neg (not_lt.mpr hgreat)]
    exact Worth.infinite
  · rw [hround, stored_of_lt hless, ← hvalue]
    refine Worth.finite fun hneg => ?_
    rw [hvalue, hs hneg, rounded_zero]

theorem worth_ofNat {n : ℕ} (h : n < 2 ^ 53) : Worth (ofNat n) ((n : ℚ) : WithTop ℚ) := by
  rw [ofNat, Rat.mkRat_one, ← stored_natCast h]
  exact worth_round (Nat.cast_nonneg n) nofun

/-- A natural number that is not too great is stored as a rational. -/
theorem worth_ofNat_le {n b : ℕ} (h : n ≤ b) (hb : 1 ≤ b) (hless : 2 * (b : ℚ) < 2 ^ (1024 : ℤ)) :
    ∃ r : ℚ, Worth (ofNat n) (r : WithTop ℚ) ∧ r ≤ 2 * b := by
  obtain ⟨r, hr, hle⟩ := stored_le_two_mul (q := (n : ℚ)) (Nat.cast_nonneg n) (Nat.cast_le.mpr h)
    (by exact_mod_cast hb) hless
  refine ⟨r, ?_, hle⟩
  rw [ofNat, Rat.mkRat_one, ← hr]
  exact worth_round (Nat.cast_nonneg n) nofun

/-- **`Worth.mul`** -- a product of two rationals is rounded once. -/
theorem Worth.mul {x y : Binary64} (hx : Worth x (p : ℚ)) (hy : Worth y (q : ℚ)) :
    Worth (x.mul y) (stored (p * q)) := by
  have hp := WithTop.coe_le_coe.mp hx.nonneg
  have hq := WithTop.coe_le_coe.mp hy.nonneg
  obtain ⟨s, m, e, rfl, rfl, hs⟩ := hx.eq_finite
  obtain ⟨t, n, f, rfl, rfl, ht⟩ := hy.eq_finite
  refine worth_round (mul_nonneg hp hq) fun hneg => ?_
  cases s with
  | true => rw [hs rfl, zero_mul]
  | false => rw [ht ((Bool.false_xor t).symm.trans hneg), mul_zero]

/-- **`Worth.div`** -- so is a quotient, and an infinite number stays infinite. -/
theorem Worth.div {x y : Binary64} {d : ℚ} (hx : Worth x v) (hy : Worth y (d : ℚ)) (hd : 0 < d) :
    Worth (x.div y) (quotient v d) := by
  obtain ⟨t, n, f, rfl, rfl, ht⟩ := hy.eq_finite
  have hpos : t = false := Bool.eq_false_of_not_eq_true fun hneg => hd.ne' (ht hneg)
  have hn : n ≠ 0 := by
    rintro rfl
    rw [magnitude_eq, Nat.cast_zero, zero_mul] at hd
    exact hd.false
  subst hpos
  cases hx with
  | infinite => exact Worth.infinite
  | @finite s m e hs =>
      show Worth (if n = 0 then _ else round (s ^^ false) (magnitude m e / magnitude n f)) _
      rw [if_neg hn, Bool.xor_false]
      refine worth_round (div_nonneg (magnitude_nonneg m e) hd.le) fun hneg => ?_
      rw [hs hneg, zero_div]

/-- A product of natural numbers that are not too great is finite. -/
theorem isFinite_mul_ofNat {m n : ℕ} (hm : m ≤ 2 ^ 100) (hn : n ≤ 2 ^ 100) :
    ((ofNat m).mul (ofNat n)).IsFinite := by
  have hless : ∀ b : ℚ, b ≤ 2 ^ 204 → b < 2 ^ (1024 : ℤ) := fun b hb => hb.trans_lt
    ((zpow_natCast (2 : ℚ) 204).symm.trans_lt (two_zpow_lt_iff.mpr (by decide)))
  have hnat : 2 * ((2 ^ 100 : ℕ) : ℚ) < 2 ^ (1024 : ℤ) := hless _ (by norm_num)
  obtain ⟨p, hp, hple⟩ := worth_ofNat_le hm (by decide) hnat
  obtain ⟨q, hq, hqle⟩ := worth_ofNat_le hn (by decide) hnat
  have hp0 : 0 ≤ p := WithTop.coe_le_coe.mp hp.nonneg
  have hq0 : 0 ≤ q := WithTop.coe_le_coe.mp hq.nonneg
  have hproduct : p * q ≤ 2 ^ 202 :=
    (mul_le_mul hple hqle hq0 (by positivity)).trans (by norm_num)
  obtain ⟨r, hr, -⟩ := stored_le_two_mul (mul_nonneg hp0 hq0) hproduct (by norm_num)
    (hless _ (by norm_num))
  have hworth := hp.mul hq
  rw [hr] at hworth
  obtain ⟨s, m, e, hfinite, -⟩ := hworth.eq_finite
  exact ⟨s, m, e, hfinite⟩

end Binary64

end SharedCells
