/-
# SharedCells.Proofs.Rate.Ranking -- a faster benchmark is not shown as a slower one

What a value is shown as grows with the value: `shown_mono`. Within one unit this is so because
every step keeps the order (`read_mono`, `inUnit_mono`). Between two units it is so because the
value at which the unit changes is a multiple of both, and is shown as itself in either
(`shownIn_mul`, `shownIn_le_of_between`).

`rateText_antitone` is what follows for rates: more time for the same work does not read as more
operations per second, whether or not a number becomes too great on the way.
-/

import SharedCells.Proofs.Rate.Faithful

namespace SharedCells

open Binary64

namespace ShownRate

variable {v w : WithTop ℚ}

/-! ## Within one unit -/

theorem digitsOf_mono {p q : ℚ} (hp : 0 ≤ p) (h : p ≤ q) (places : ℕ) :
    digitsOf p places ≤ digitsOf q places :=
  (digitsOf_nearest hp places).mono (digitsOf_nearest (hp.trans h) places)
    (mul_le_mul_of_nonneg_right h (by positivity))

theorem read_mono (scale : Scale) (hv : 0 ≤ v) (h : v ≤ w) : read scale v ≤ read scale w := by
  cases w with
  | top => exact le_top
  | coe q =>
      cases v with
      | top => exact absurd (top_le_iff.mp h) WithTop.coe_ne_top
      | coe p =>
          have hdigits := digitsOf_mono (WithTop.coe_le_coe.mp hv) (WithTop.coe_le_coe.mp h)
            scale.places
          have hcast : (digitsOf p scale.places : ℚ) ≤ digitsOf q scale.places := by
            exact_mod_cast hdigits
          rw [read, read, WithTop.map_coe, WithTop.map_coe, WithTop.coe_le_coe]
          gcongr

theorem inUnit_nonneg (scale : Scale) (hv : 0 ≤ v) : 0 ≤ inUnit scale v := by
  cases scale with
  | one => exact hv
  | kilo => exact quotient_nonneg
  | mega => exact quotient_nonneg

theorem inUnit_mono (scale : Scale) (hv : 0 ≤ v) (h : v ≤ w) : inUnit scale v ≤ inUnit scale w := by
  cases scale with
  | one => exact h
  | kilo => exact quotient_mono hv h (by decide) le_rfl
  | mega => exact quotient_mono hv h (by decide) le_rfl

theorem shownIn_mono (scale : Scale) (hv : 0 ≤ v) (h : v ≤ w) :
    shownIn scale v ≤ shownIn scale w :=
  read_mono scale (inUnit_nonneg scale hv) (inUnit_mono scale hv h)

/-! ## From one unit to the next -/

/-- **`shownIn_mul`** -- a multiple of the unit is shown as itself. -/
theorem shownIn_mul (scale : Scale) {k : ℕ} (hk : k < 2 ^ 53) :
    shownIn scale ((k * scale.factor : ℚ) : WithTop ℚ) = (k * scale.factor : ℚ) := by
  have hunit : inUnit scale ((k * scale.factor : ℚ) : WithTop ℚ) = (k : ℚ) := by
    have hquotient : ∀ d : ℚ, d ≠ 0 → quotient ((k * d : ℚ) : WithTop ℚ) d = (k : ℚ) := by
      intro d hd
      show stored (k * d / d) = _
      rw [mul_div_cancel_right₀ _ hd, stored_natCast hk]
    cases scale with
    | one => simp [inUnit, Scale.factor]
    | kilo => exact hquotient _ (by norm_num [Scale.factor])
    | mega => exact hquotient _ (by norm_num [Scale.factor])
  have hdigits : digitsOf k scale.places = k * 10 ^ scale.places := by
    refine (digitsOf_nearest (Nat.cast_nonneg k) _).unique ?_
    exact_mod_cast nearest_natCast (k * 10 ^ scale.places)
  have hpow : (10 : ℚ) ^ scale.places ≠ 0 := by positivity
  rw [shownIn, hunit, read, WithTop.map_coe, hdigits, Nat.cast_mul, Nat.cast_pow, Nat.cast_ofNat,
    mul_div_cancel_right₀ _ hpow]

/-- **`shownIn_le_of_between`** -- a multiple of both units keeps their sides apart. -/
theorem shownIn_le_of_between {lower upper : Scale} {t : ℚ} (k l : ℕ) (hk : k < 2 ^ 53)
    (hl : l < 2 ^ 53) (hlower : t = k * lower.factor) (hupper : t = l * upper.factor) (hv : 0 ≤ v)
    (hle : v ≤ t) (hge : t ≤ w) : shownIn lower v ≤ shownIn upper w :=
  calc shownIn lower v ≤ shownIn lower t := shownIn_mono lower hv hle
    _ = t := by rw [hlower, shownIn_mul lower hk]
    _ = shownIn upper t := by rw [hupper, shownIn_mul upper hl]
    _ ≤ shownIn upper w := shownIn_mono upper (hv.trans hle) hge

theorem shownIn_one_le_kilo (hv : 0 ≤ v) (hle : v ≤ (10 ^ 3 : ℚ)) (hge : (10 ^ 3 : ℚ) ≤ w) :
    shownIn .one v ≤ shownIn .kilo w :=
  shownIn_le_of_between 1000 1 (by decide) (by decide) (by norm_num [Scale.factor])
    (by norm_num [Scale.factor]) hv hle hge

theorem shownIn_kilo_le_mega (hv : 0 ≤ v) (hle : v ≤ (10 ^ 6 : ℚ)) (hge : (10 ^ 6 : ℚ) ≤ w) :
    shownIn .kilo v ≤ shownIn .mega w :=
  shownIn_le_of_between 1000 1 (by decide) (by decide) (by norm_num [Scale.factor])
    (by norm_num [Scale.factor]) hv hle hge

/-- **`shown_mono`** -- a greater value is not shown as a smaller one. -/
theorem shown_mono (hv : 0 ≤ v) (h : v ≤ w) : shown v ≤ shown w := by
  have hsteps : ((10 ^ 3 : ℚ) : WithTop ℚ) ≤ (10 ^ 6 : ℚ) := by
    rw [WithTop.coe_le_coe]
    norm_num
  rw [shown, shown, Scale.suited, Scale.suited]
  by_cases hvm : ((10 ^ 6 : ℚ) : WithTop ℚ) < v
  · rw [if_pos hvm, if_pos (hvm.trans_le h)]
    exact shownIn_mono _ hv h
  rw [if_neg hvm]
  by_cases hvk : ((10 ^ 3 : ℚ) : WithTop ℚ) < v
  · rw [if_pos hvk]
    by_cases hwm : ((10 ^ 6 : ℚ) : WithTop ℚ) < w
    · rw [if_pos hwm]
      exact shownIn_kilo_le_mega hv (not_lt.mp hvm) hwm.le
    · rw [if_neg hwm, if_pos (hvk.trans_le h)]
      exact shownIn_mono _ hv h
  · rw [if_neg hvk]
    by_cases hwm : ((10 ^ 6 : ℚ) : WithTop ℚ) < w
    · -- From the least unit to the greatest the way leads through the one between.
      rw [if_pos hwm]
      exact (shownIn_one_le_kilo hv (not_lt.mp hvk) hsteps).trans
        (shownIn_kilo_le_mega (hv.trans (not_lt.mp hvm)) le_rfl hwm.le)
    · rw [if_neg hwm]
      by_cases hwk : ((10 ^ 3 : ℚ) : WithTop ℚ) < w
      · rw [if_pos hwk]
        exact shownIn_one_le_kilo hv (not_lt.mp hvk) hwk.le
      · rw [if_neg hwk]
        exact shownIn_mono _ hv h

/-! ## Rates -/

/-- **`worth_rateOf`** -- a rate is a product and a quotient, each rounded. -/
theorem worth_rateOf {elements time : Binary64} {n t : ℚ} (hn : Worth elements (n : ℚ))
    (ht : Worth time (t : ℚ)) (hpos : 0 < t) :
    Worth (rateOf elements time) (quotient (stored (n * 10 ^ 9)) t) := by
  have hnano := worth_ofNat (by decide : 1000000000 < 2 ^ 53)
  have hproduct := hn.mul hnano
  rw [show ((1000000000 : ℕ) : ℚ) = 10 ^ 9 by norm_num] at hproduct
  exact hproduct.div ht hpos

/-- What is worth something is shown as a number. -/
theorem numberShown?_rateText {x : Binary64} (h : Worth x v) :
    numberShown? (rateText x).toList = some (shown v : Extended) ∧ rateText x ≠ "NaN" := by
  have hshown : numberShown? (rateText x).toList = some (shown v : Extended) := by
    rw [rateText, String.toList_ofList, numberShown?_text, value?_of_worth h]
  refine ⟨hshown, fun hnan => ?_⟩
  have hnone : numberShown? "NaN".toList = none := by decide
  rw [hnan, hnone] at hshown
  exact Option.some_ne_none _ hshown.symm

/-- **`rateText_antitone`** -- of two benchmarks that do the same work, the one that takes longer
is not shown with the greater rate, and both are shown with one. -/
theorem rateText_antitone {elements fast slow : Binary64} (he : elements.IsFinite)
    (hf : fast.IsFinite) (hs : slow.IsFinite) (hnonneg : 0 ≤ elements.toRat)
    (hpos : 0 < fast.toRat) (hle : fast.toRat ≤ slow.toRat) :
    ∃ greater less : Extended,
      numberShown? (rateText (rateOf elements fast)).toList = some greater ∧
        numberShown? (rateText (rateOf elements slow)).toList = some less ∧ less ≤ greater ∧
        rateText (rateOf elements fast) ≠ "NaN" ∧ rateText (rateOf elements slow) ≠ "NaN" := by
  have hpos' := hpos.trans_le hle
  have hwork := worth_toRat he hnonneg
  have hfast := worth_rateOf hwork (worth_toRat hf hpos.le) hpos
  have hslow := worth_rateOf hwork (worth_toRat hs hpos'.le) hpos'
  obtain ⟨hgreater, hnumber⟩ := numberShown?_rateText hfast
  obtain ⟨hless, hnumber'⟩ := numberShown?_rateText hslow
  have horder := shown_mono hslow.nonneg (quotient_mono (stored_nonneg _) le_rfl hpos hle)
  exact ⟨_, _, hgreater, hless, WithBot.coe_le_coe.mpr horder, hnumber, hnumber'⟩

/-- A pass of a thousand nanoseconds makes a million a second, which is shown in thousands; the
next shorter time is shown in millions, and no less. -/
theorem rateText_antitone_million :
    ((ofNat 1).IsFinite ∧ (ofBits 0x408f3fffffffffff).IsFinite ∧ (ofNat 1000).IsFinite) ∧
      (0 ≤ (ofNat 1).toRat ∧ 0 < (ofBits 0x408f3fffffffffff).toRat ∧
        (ofBits 0x408f3fffffffffff).toRat ≤ (ofNat 1000).toRat) ∧
      rateText (rateOf (ofNat 1) (ofBits 0x408f3fffffffffff)) = "1.00M" ∧
      rateText (rateOf (ofNat 1) (ofNat 1000)) = "1000.00K" ∧
      ∃ greater less : Extended, numberShown? "1.00M".toList = some greater ∧
        numberShown? "1000.00K".toList = some less ∧ less ≤ greater := by
  have hone : (ofNat 1).IsFinite := ⟨_, _, _, rfl⟩
  have hfast : (ofBits 0x408f3fffffffffff).IsFinite := ⟨_, _, _, rfl⟩
  have hslow : (ofNat 1000).IsFinite := ⟨_, _, _, rfl⟩
  have hnonneg : 0 ≤ (ofNat 1).toRat := by decide +kernel
  have hpos : 0 < (ofBits 0x408f3fffffffffff).toRat := by decide +kernel
  have hle : (ofBits 0x408f3fffffffffff).toRat ≤ (ofNat 1000).toRat := by decide +kernel
  have hgreater : rateText (rateOf (ofNat 1) (ofBits 0x408f3fffffffffff)) = "1.00M" := by
    decide +kernel
  have hless : rateText (rateOf (ofNat 1) (ofNat 1000)) = "1000.00K" := by decide +kernel
  obtain ⟨greater, less, hg, hl, horder, -, -⟩ :=
    rateText_antitone hone hfast hslow hnonneg hpos hle
  rw [hgreater] at hg
  rw [hless] at hl
  exact ⟨⟨hone, hfast, hslow⟩, ⟨hnonneg, hpos, hle⟩, hgreater, hless, greater, less, hg, hl, horder⟩

end ShownRate

end SharedCells
