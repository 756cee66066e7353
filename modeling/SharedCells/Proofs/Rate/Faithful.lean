/-
# SharedCells.Proofs.Rate.Faithful -- how far a shown rate is from the rate

A rate goes through two roundings before it is read: it is divided by its unit, and the quotient is
written with two decimals. `shown` says what is read in the end, for a rate that is not negative;
a smaller one is not divided at all.

* `value?_of_worth` : the rate is shown as `shown`, whatever its form.
* `rateText_faithful` : for every number of 64 bits, the unit is the one that suits its exact
  value, and what is read differs from it by at most half a unit of the last digit, and by the
  error of the division where there is one.
-/

import SharedCells.Proofs.Rate.Reading
import SharedCells.Proofs.Rate.Worth

namespace SharedCells

open Binary64

variable {v w : WithTop ℚ}

/-! ## The unit -/

/-- **`Scale.suited`** -- the unit that suits a value. -/
def Scale.suited (v : WithTop ℚ) : Scale :=
  if ((10 ^ 6 : ℚ) : WithTop ℚ) < v then mega
  else if ((10 ^ 3 : ℚ) : WithTop ℚ) < v then kilo
  else one

theorem Scale.suited_eq_mega_iff {x : ℚ} : Scale.suited x = mega ↔ 10 ^ 6 < x := by
  rw [Scale.suited]
  simp only [WithTop.coe_lt_coe]
  split_ifs with hm hk <;> simp [hm]

theorem Scale.suited_eq_one_iff {x : ℚ} : Scale.suited x = one ↔ x ≤ 10 ^ 3 := by
  rw [Scale.suited]
  simp only [WithTop.coe_lt_coe]
  split_ifs with hm hk
  · exact iff_of_false nofun (by linarith)
  · exact iff_of_false nofun hk.not_ge
  · exact iff_of_true rfl (not_lt.mp hk)

theorem Scale.suited_eq_kilo_iff {x : ℚ} : Scale.suited x = kilo ↔ 10 ^ 3 < x ∧ x ≤ 10 ^ 6 := by
  rw [← not_le, ← Scale.suited_eq_one_iff, ← not_lt, ← Scale.suited_eq_mega_iff]
  cases Scale.suited x with
  | one => decide
  | kilo => decide
  | mega => decide

theorem Scale.places_suited (x : ℚ) : (Scale.suited x).places = if 10 ^ 3 < x then 2 else 0 := by
  by_cases h : 10 ^ 3 < x
  · rw [if_pos h]
    cases hsuited : Scale.suited x with
    | one => exact absurd (Scale.suited_eq_one_iff.mp hsuited) h.not_ge
    | kilo => rfl
    | mega => rfl
  · rw [if_neg h, Scale.suited_eq_one_iff.mpr (not_lt.mp h)]
    rfl

/-- A small natural number compares as the rational that it is. -/
theorem ofNat_lt_finite {n : ℕ} (h : n < 2 ^ 53) (s : Bool) (m : ℕ) (e : ℤ) :
    (Binary64.ofNat n).lt (finite s m e) = true ↔ (n : ℚ) < (finite s m e).toRat := by
  obtain ⟨t, k, f, hn, hvalue, ht⟩ := (worth_ofNat h).eq_finite
  rw [hn, lt, decide_eq_true_eq, toRat_eq_magnitude fun hneg => hvalue.trans (ht hneg), hvalue]

theorem Scale.of_finite (s : Bool) (m : ℕ) (e : ℤ) :
    Scale.of (finite s m e) = Scale.suited ((finite s m e).toRat : ℚ) := by
  rw [Scale.of, Scale.suited]
  simp only [ofNat_lt_finite (by decide : 1000000 < 2 ^ 53), WithTop.coe_lt_coe,
    ofNat_lt_finite (by decide : 1000 < 2 ^ 53)]
  norm_num

theorem Scale.of_worth {x : Binary64} (h : Worth x v) : Scale.of x = Scale.suited v := by
  cases h with
  | infinite => decide
  | finite hs => rw [Scale.of_finite, toRat_eq_magnitude hs]

/-! ## What is read -/

namespace ShownRate

/-- The digits of a magnitude are those of the nearest decimal. -/
theorem digitsOf_nearest {q : ℚ} (hq : 0 ≤ q) (places : ℕ) :
    Nearest (digitsOf q places) (q * 10 ^ places) := by
  have hround := roundDiv_nearest (q.num.natAbs * 10 ^ places) q.den_pos
  rw [Nat.cast_mul, mul_div_right_comm, ← eq_fraction hq] at hround
  exact_mod_cast hround

/-- **`read`** -- the number that the digits of a value denote in a unit. -/
def read (scale : Scale) (v : WithTop ℚ) : WithTop ℚ :=
  v.map fun q => (digitsOf q scale.places : ℚ) / 10 ^ scale.places * scale.factor

/-- **`inUnit`** -- a value in a unit. Only thousands and millions are divided. -/
def inUnit : Scale → WithTop ℚ → WithTop ℚ
  | .one, v => v
  | scale, v => quotient v scale.factor

/-- **`shownIn`** -- the number that a value is shown as in a unit. -/
def shownIn (scale : Scale) (v : WithTop ℚ) : WithTop ℚ := read scale (inUnit scale v)

/-- **`shown`** -- the number that a value is shown as. -/
def shown (v : WithTop ℚ) : WithTop ℚ := shownIn (Scale.suited v) v

theorem worth_scaled {x : Binary64} (h : Worth x v) (scale : Scale) :
    Worth (scaled x scale) (inUnit scale v) := by
  cases scale with
  | one => exact h
  | kilo => exact h.div (worth_ofNat (by decide)) (by decide)
  | mega => exact h.div (worth_ofNat (by decide)) (by decide)

/-- **`value?_of_worth`** -- a rate that is not negative is shown as its value is. -/
theorem value?_of_worth {x : Binary64} (h : Worth x v) :
    (ShownRate.of x).value? = some (shown v : Extended) := by
  have hscaled := worth_scaled h (Scale.of x)
  rw [Scale.of_worth h] at hscaled
  rw [ShownRate.of, Scale.of_worth h, shown, shownIn]
  generalize Scale.suited v = scale at hscaled
  generalize scaled x scale = y at hscaled
  generalize inUnit scale v = w at hscaled
  cases hscaled with
  | infinite => rfl
  | @finite s m e hs =>
      cases s with
      | false => rfl
      | true =>
          -- A zero keeps its sign, and the digits of minus zero denote zero.
          have hnone : digitsOf 0 scale.places = 0 :=
            (digitsOf_nearest le_rfl _).unique (by simpa using nearest_natCast 0)
          show (amount true (digitsOf (magnitude m e) scale.places) scale).value? = _
          rw [hs rfl, hnone, read, WithTop.map_coe, hnone, Nat.cast_zero, zero_div, zero_mul]
          simp [value?, signed]

/-- A rate that is shown as a rational is shown by digits. -/
theorem eq_amount {x : Binary64} {r : ℚ}
    (h : (ShownRate.of x).value? = some ((r : WithTop ℚ) : Extended)) :
    ∃ negative digits, ShownRate.of x = amount negative digits (Scale.of x) := by
  rw [ShownRate.of] at h ⊢
  split at h
  case h_1 => exact absurd h nofun
  case h_2 negative _ =>
    rw [value?, Option.some.injEq] at h
    cases negative with
    | false => exact absurd (WithBot.coe_injective h) WithTop.top_ne_coe
    | true => exact absurd h WithBot.bot_ne_coe
  case h_3 => exact ⟨_, _, rfl⟩

/-! ## The error -/

/-- Writing digits loses at most half a unit of the last one. -/
theorem digits_error {q : ℚ} (hq : 0 ≤ q) (scale : Scale) :
    |(digitsOf q scale.places : ℚ) / 10 ^ scale.places * scale.factor - q * scale.factor| ≤
      1 / 2 / 10 ^ scale.places * scale.factor := by
  have hpow : (0 : ℚ) < 10 ^ scale.places := by positivity
  have hclose := (digitsOf_nearest hq scale.places).close
  rw [← sub_mul, abs_mul, Nat.abs_cast]
  refine mul_le_mul_of_nonneg_right ?_ (Nat.cast_nonneg _)
  rw [le_div_iff₀ hpow, ← abs_of_pos hpow, ← abs_mul, abs_of_pos hpow, sub_mul,
    div_mul_cancel₀ _ hpow.ne', abs_sub_comm]
  exact hclose

theorem inUnit_of_ne_one {scale : Scale} (h : scale ≠ .one) :
    inUnit scale v = quotient v scale.factor := by
  cases scale with
  | one => exact absurd rfl h
  | kilo => rfl
  | mega => rfl

/-- **`shownIn_error`** -- the quotient loses 2^-53 of itself before that. -/
theorem shownIn_error {x : ℚ} {scale : Scale} (hscale : scale ≠ .one) (hunit : scale.factor ≤ x)
    (hx : x < 2 ^ (1024 : ℤ)) :
    ∃ r : ℚ, shownIn scale x = (r : ℚ) ∧
      |r - x| ≤ 1 / 2 / 10 ^ scale.places * scale.factor + x * 2 ^ (-53 : ℤ) := by
  have htwo : (2 : ℚ) ≤ scale.factor := by
    cases scale with
    | one => exact absurd rfl hscale
    | kilo => norm_num [Scale.factor]
    | mega => norm_num [Scale.factor]
  have hfactor : (0 : ℚ) < scale.factor := two_pos.trans_le htwo
  set q := x / scale.factor with hq
  have hxq : x = q * scale.factor := (div_mul_cancel₀ x hfactor.ne').symm
  have hone : 1 ≤ q := (one_le_div hfactor).mpr hunit
  have herror : |rounded q - q| ≤ q * 2 ^ (-53 : ℤ) := by
    refine rounded_error (le_trans ?_ hone)
    rw [← zpow_zero (2 : ℚ)]
    exact two_zpow_le_iff.mpr (by decide)
  have hfits : rounded q < 2 ^ (1024 : ℤ) := by
    have hsmall : (2 : ℚ) ^ (-53 : ℤ) ≤ 1 := by norm_num
    calc rounded q ≤ q + q * 2 ^ (-53 : ℤ) := by linarith [(abs_le.mp herror).2]
      _ ≤ q * 2 := by nlinarith
      _ ≤ q * scale.factor := mul_le_mul_of_nonneg_left htwo (by linarith)
      _ = x := hxq.symm
      _ < 2 ^ (1024 : ℤ) := hx
  refine ⟨(digitsOf (rounded q) scale.places : ℚ) / 10 ^ scale.places * scale.factor, ?_, ?_⟩
  · rw [shownIn, inUnit_of_ne_one hscale]
    show read scale (stored q) = _
    rw [stored_of_lt hfits, read, WithTop.map_coe]
  · calc |(digitsOf (rounded q) scale.places : ℚ) / 10 ^ scale.places * scale.factor - x|
        ≤ |(digitsOf (rounded q) scale.places : ℚ) / 10 ^ scale.places * scale.factor -
              rounded q * scale.factor| + |rounded q * scale.factor - x| :=
          abs_sub_le _ _ _
      _ ≤ 1 / 2 / 10 ^ scale.places * scale.factor + x * 2 ^ (-53 : ℤ) := by
          refine add_le_add (digits_error (rounded_nonneg q) scale) ?_
          calc |rounded q * scale.factor - x| = |rounded q - q| * scale.factor := by
                rw [hxq, ← sub_mul, abs_mul, Nat.abs_cast]
            _ ≤ q * 2 ^ (-53 : ℤ) * scale.factor :=
                mul_le_mul_of_nonneg_right herror hfactor.le
            _ = x * 2 ^ (-53 : ℤ) := by
                rw [hxq, mul_right_comm]

/-! ## The text -/

/-- **`tolerance`** -- half a unit of the last digit shown, and the error of the division. -/
def tolerance (x : ℚ) : ℚ :=
  if 10 ^ 6 < x then 5 / 1000 * 10 ^ 6 + |x| * 2 ^ (-53 : ℤ)
  else if 10 ^ 3 < x then 5 / 1000 * 10 ^ 3 + |x| * 2 ^ (-53 : ℤ)
  else 5 / 10

/-- **`decimals`** -- the number of digits after the point. -/
def decimals (cs : List Char) : ℕ := (cs.dropWhile (· ≠ '.')).countP Char.isDigit

/-- **`Shows cs x`** -- the text shows the number: in the unit that suits it, which is the last
character, and near enough. -/
structure Shows (cs : List Char) (x : ℚ) : Prop where
  mega : cs.getLast? = some 'M' ↔ 10 ^ 6 < x
  kilo : cs.getLast? = some 'K' ↔ 10 ^ 3 < x ∧ x ≤ 10 ^ 6
  one : (∃ c, cs.getLast? = some c ∧ c.isDigit = true) ↔ x ≤ 10 ^ 3
  decimals : decimals cs = if 10 ^ 3 < x then 2 else 0
  near : ∃ r : ℚ, numberShown? cs = some ((r : WithTop ℚ) : Extended) ∧ |r - x| ≤ tolerance x

theorem decimals_amount (negative : Bool) (digits : ℕ) (scale : Scale) :
    ShownRate.decimals (amount negative digits scale).text = scale.places := by
  have hbefore (n : ℕ) : '.' ∉ signText negative ++ Numeral.decimal n := by
    intro hpoint
    rcases List.mem_append.mp hpoint with hsign | hdigit
    · cases negative with
      | false => exact absurd hsign List.not_mem_nil
      | true => exact absurd (List.mem_singleton.mp hsign) (by decide)
    · exact point_not_mem_decimal n hdigit
  rcases Nat.eq_zero_or_pos scale.places with hplaces | hplaces
  · have hsuffix : scale.suffix = [] := by
      cases scale with
      | one => rfl
      | kilo => exact absurd hplaces nofun
      | mega => exact absurd hplaces nofun
    rw [text, hsuffix, List.append_nil, hplaces, decimalText_zero, ShownRate.decimals,
      Text.dropWhile_ne_nil (hbefore digits), List.countP_nil]
  · have hpadded : (padded (digits % 10 ^ scale.places) scale.places).countP Char.isDigit =
        scale.places := by
      rw [List.countP_eq_length.mpr fun c hc => isDigit_of_mem_padded hc]
      exact length_padded hplaces (Nat.mod_lt _ (by positivity))
    have hsuffix : scale.suffix.countP Char.isDigit = 0 := by
      cases scale with
      | one => rfl
      | kilo => rfl
      | mega => rfl
    rw [text, decimalText_pos digits hplaces, ← List.append_assoc,
      List.append_assoc _ _ scale.suffix, ShownRate.decimals,
      List.cons_append, Text.dropWhile_ne (hbefore _), List.countP_cons_of_neg (by decide),
      List.countP_append, hpadded, hsuffix, Nat.add_zero]

/-- In thousands and millions, the tolerance is that of the digits and of the quotient. -/
theorem tolerance_eq {x : ℚ} (h : 10 ^ 3 < x) :
    (Scale.suited x).factor ≤ x ∧ tolerance x =
      1 / 2 / 10 ^ (Scale.suited x).places * (Scale.suited x).factor + x * 2 ^ (-53 : ℤ) := by
  have hpos : 0 < x := by linarith
  rw [tolerance, abs_of_pos hpos]
  by_cases hmillion : 10 ^ 6 < x
  · rw [Scale.suited_eq_mega_iff.mpr hmillion, if_pos hmillion]
    norm_num [Scale.factor, Scale.places]
    linarith
  · rw [Scale.suited_eq_kilo_iff.mpr ⟨h, not_lt.mp hmillion⟩, if_neg hmillion, if_pos h]
    norm_num [Scale.factor, Scale.places]
    linarith

/-- A number of at most a thousand is shown as the nearest integer, with its sign. -/
theorem value?_small {x : Binary64} (hx : x.IsFinite) (h : x.toRat ≤ 10 ^ 3) :
    ∃ r : ℚ, (ShownRate.of x).value? = some ((r : WithTop ℚ) : Extended) ∧
      |r - x.toRat| ≤ 1 / 2 := by
  obtain ⟨s, m, e, rfl⟩ := hx
  have hscale := (Scale.of_finite s m e).trans (Scale.suited_eq_one_iff.mpr h)
  have herror := digits_error (magnitude_nonneg m e) .one
  set r : ℚ := (digitsOf (magnitude m e) Scale.one.places : ℚ) / 10 ^ Scale.one.places *
    Scale.one.factor
  have hshown : (ShownRate.of (finite s m e)).value? =
      some (((if s then -r else r : ℚ) : WithTop ℚ) : Extended) := by
    rw [ShownRate.of, hscale]
    rfl
  refine ⟨_, hshown, ?_⟩
  norm_num [Scale.factor, Scale.places] at herror
  rw [toRat]
  cases s with
  | false => exact herror
  | true =>
      show |-r - -magnitude m e| ≤ 1 / 2
      rw [neg_sub_neg, abs_sub_comm]
      exact herror

/-- **`value?_near`** -- what is read is near enough. -/
theorem value?_near {x : Binary64} (hx : x.IsFinite) (hless : x.toRat < 2 ^ (1024 : ℤ)) :
    ∃ r : ℚ, (ShownRate.of x).value? = some ((r : WithTop ℚ) : Extended) ∧
      |r - x.toRat| ≤ tolerance x.toRat := by
  by_cases hthousand : 10 ^ 3 < x.toRat
  · have hone : Scale.suited x.toRat ≠ .one := fun hone =>
      hthousand.not_ge (Scale.suited_eq_one_iff.mp hone)
    have hpos : 0 ≤ x.toRat := by linarith
    obtain ⟨hfactor, htolerance⟩ := tolerance_eq hthousand
    obtain ⟨r, hr, herror⟩ := shownIn_error hone hfactor hless
    refine ⟨r, ?_, herror.trans htolerance.ge⟩
    rw [value?_of_worth (worth_toRat hx hpos), shown, hr]
  · have hmillion : ¬ 10 ^ 6 < x.toRat := by linarith
    obtain ⟨r, hr, herror⟩ := value?_small hx (not_lt.mp hthousand)
    refine ⟨r, hr, herror.trans_eq ?_⟩
    rw [tolerance, if_neg hmillion, if_neg hthousand]
    norm_num

/-- **`rateText_faithful`** -- every finite number of 64 bits is shown as what it is. -/
theorem rateText_faithful {bits : BitVec 64} (h : (ofBits bits).IsFinite) :
    Shows (rateText (ofBits bits)).toList (ofBits bits).toRat := by
  set x := ofBits bits with hbits
  obtain ⟨r, hr, herror⟩ := value?_near h (hbits ▸ toRat_ofBits_lt bits)
  obtain ⟨negative, digits, hamount⟩ := eq_amount hr
  have hscale : Scale.of x = Scale.suited x.toRat := by
    obtain ⟨s, m, e, hx⟩ := h
    rw [hx, Scale.of_finite]
  have htext : (rateText x).toList = (amount negative digits (Scale.suited x.toRat)).text := by
    rw [rateText, String.toList_ofList, hamount, hscale]
  obtain ⟨c, hlast, hmega, hkilo, hone⟩ :=
    getLast?_amount negative digits (Scale.suited x.toRat)
  rw [htext]
  refine ⟨?_, ?_, ?_, ?_, r, ?_, herror⟩
  · rw [hlast, Option.some.injEq, ← hmega, Scale.suited_eq_mega_iff]
  · rw [hlast, Option.some.injEq, ← hkilo, Scale.suited_eq_kilo_iff]
  · rw [hlast, ← Scale.suited_eq_one_iff, hone]
    simp
  · rw [decimals_amount, Scale.places_suited]
  · rw [numberShown?_text, ← hscale, ← hamount, hr]

/-- Five below a million lies halfway between two thousands with two decimals: no rate is further
from what it is shown as. -/
theorem rateText_faithful_halfway :
    (ofBits 0x412e847600000000).IsFinite ∧ (ofBits 0x412e847600000000).toRat = 999995 ∧
      Shows "1000.00K".toList 999995 := by
  have hfinite : (ofBits 0x412e847600000000).IsFinite := ⟨_, _, _, rfl⟩
  have hvalue : (ofBits 0x412e847600000000).toRat = 999995 := by decide +kernel
  have htext : rateText (ofBits 0x412e847600000000) = "1000.00K" := by decide +kernel
  have hshows := rateText_faithful hfinite
  rw [htext, hvalue] at hshows
  exact ⟨hfinite, hvalue, hshows⟩

end ShownRate

end SharedCells
