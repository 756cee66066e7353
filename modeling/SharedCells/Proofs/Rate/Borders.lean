/-
# SharedCells.Proofs.Rate.Borders -- one number in two units

The unit of a rate is chosen by its exact value, and its digits are rounded after that. So the
digits can reach the next unit while the unit stays: a million is shown as `1000.00K`, and the next
greater rate as `1.00M`. The text of a rate is told by its unit and the number that it denotes,
`rateText_eq_text_iff`; and the number tells the unit, but for the two numbers at which the unit
changes.

* `suited_eq_or_border` : values that are shown as one number have one unit, or that number is the
  border between their units.
* `shown_le_shown_iff` : the least rate that is shown as some number, from the number before it.
* `rateText_same_number` : which texts denote one number, and which rates are shown as a border.
* `rateText_million_twice` : two texts for a million.
-/

import SharedCells.Proofs.Rate.Ranking

namespace SharedCells

open Binary64

namespace Binary64

/-- **`magnitude_le_before`** -- no magnitude of 53 bits lies between a number with a full mantissa
and the one before it. -/
theorem magnitude_le_before {m n : ℕ} {e f : ℤ} (hm : m < 2 ^ 53) (hn : 2 ^ 52 ≤ n)
    (h : magnitude m f < magnitude (n + 1) e) : magnitude m f ≤ magnitude n e := by
  rw [magnitude_eq, magnitude_eq] at h ⊢
  rcases le_or_gt e f with hfine | hcoarse
  · -- The magnitude is a multiple of the finer unit.
    have hunits : (m : ℚ) * 2 ^ f = (m * 2 ^ (f - e).toNat : ℕ) * 2 ^ e := by
      rw [Nat.cast_mul, ← two_zpow_of_nonneg (by omega), mul_assoc, ← two_zpow_add,
        sub_add_cancel]
    rw [hunits] at h ⊢
    have hless := lt_of_mul_lt_mul_right h (two_zpow_pos e).le
    exact mul_two_zpow_le (Nat.lt_succ_iff.mp (by exact_mod_cast hless)) e
  · calc (m : ℚ) * 2 ^ f ≤ (2 ^ 53 : ℕ) * 2 ^ f := mul_two_zpow_le hm.le f
      _ = 2 ^ (53 + f) := two_pow_mul 53 f
      _ ≤ 2 ^ (52 + e) := two_zpow_le_iff.mpr (by omega)
      _ = (2 ^ 52 : ℕ) * 2 ^ e := (two_pow_mul 52 e).symm
      _ ≤ n * 2 ^ e := mul_two_zpow_le hn e

theorem sign_of_round {s t : Bool} {q : ℚ} {m : ℕ} {e : ℤ} (hq : 0 ≤ q)
    (h : round s q = finite t m e) : t = s := by
  rcases round_cases s hq with ⟨-, hround⟩ | ⟨-, n, f, hround, -⟩
  · exact absurd (hround.symm.trans h) nofun
  · rw [hround] at h
    injection h with hsign
    exact hsign.symm

/-- A quotient by a natural number has the sign of what is divided. -/
theorem sign_of_div_ofNat {k m n : ℕ} {e f : ℤ} {s t : Bool} (hpos : 0 < k) (hk : k < 2 ^ 53)
    (h : (finite s m e).div (ofNat k) = finite t n f) : t = s := by
  obtain ⟨u, l, g, hunit, -, hu⟩ := (worth_ofNat hk).eq_finite
  have hsign : u = false := Bool.eq_false_of_not_eq_true fun hneg =>
    hpos.ne' (Nat.cast_eq_zero.mp (hu hneg))
  rw [hunit, hsign] at h
  change (if l = 0 then _ else round (s ^^ false) (magnitude m e / magnitude l g)) = _ at h
  rw [Bool.xor_false] at h
  split at h
  · split at h <;> exact absurd h nofun
  · exact sign_of_round (div_nonneg (magnitude_nonneg m e) (magnitude_nonneg l g)) h

end Binary64

namespace ShownRate

variable {v w : WithTop ℚ}

theorem coe_magnitude_nonneg (m : ℕ) (e : ℤ) : (0 : WithTop ℚ) ≤ (magnitude m e : ℚ) :=
  WithTop.coe_le_coe.mpr (magnitude_nonneg m e)

/-! ## Between two units -/

/-- **`Border`** -- two units next to each other, and the value at which the greater one starts. -/
inductive Border : Scale → Scale → ℚ → Prop
  | thousand : Border .one .kilo (10 ^ 3)
  | million : Border .kilo .mega (10 ^ 6)

/-- A border is shown as itself in both of its units. -/
theorem Border.shownIn_eq {s t : Scale} {q : ℚ} (h : Border s t q) :
    shownIn s q = q ∧ shownIn t q = q := by
  have hmul : ∀ (scale : Scale) (k : ℕ), k < 2 ^ 53 → q = k * scale.factor →
      shownIn scale q = q := by
    rintro scale k hk hq
    rw [hq, shownIn_mul scale hk]
  cases h with
  | thousand =>
      exact ⟨hmul .one 1000 (by decide) (by norm_num [Scale.factor]),
        hmul .kilo 1 (by decide) (by norm_num [Scale.factor])⟩
  | million =>
      exact ⟨hmul .kilo 1000 (by decide) (by norm_num [Scale.factor]),
        hmul .mega 1 (by decide) (by norm_num [Scale.factor])⟩

/-- A value in the lower unit of a border is not above it, and one in the upper unit is. -/
theorem Border.le_iff {s t : Scale} {q : ℚ} (h : Border s t q) :
    (Scale.suited v = s → v ≤ q) ∧ (Scale.suited v = t → (q : WithTop ℚ) < v) := by
  rw [Scale.suited]
  cases h with
  | thousand =>
      split_ifs with hm hk
      · exact ⟨False.elim, False.elim⟩
      · exact ⟨False.elim, fun _ => hk⟩
      · exact ⟨fun _ => not_lt.mp hk, False.elim⟩
  | million =>
      split_ifs with hm hk
      · exact ⟨False.elim, fun _ => hm⟩
      · exact ⟨fun _ => not_lt.mp hm, False.elim⟩
      · exact ⟨False.elim, False.elim⟩

/-- So it is shown as nothing above the border, and nothing below it. -/
theorem Border.shown_le {s t : Scale} {q : ℚ} (h : Border s t q) (hv : 0 ≤ v)
    (hs : Scale.suited v = s) : shown v ≤ q := by
  rw [shown, hs, ← h.shownIn_eq.1]
  exact shownIn_mono s hv (h.le_iff.1 hs)

theorem Border.le_shown {s t : Scale} {q : ℚ} (h : Border s t q) (ht : Scale.suited v = t) :
    (q : WithTop ℚ) ≤ shown v := by
  have hq : 0 ≤ q := by cases h <;> norm_num
  rw [shown, ht, ← h.shownIn_eq.2]
  exact shownIn_mono t (WithTop.coe_le_coe.mpr hq) (h.le_iff.2 ht).le

/-- Two values on its sides that are shown as one number are both shown as the border. -/
theorem Border.shown_eq {s t : Scale} {q : ℚ} (hborder : Border s t q) (hv : 0 ≤ v)
    (h : shown v = shown w) (hs : Scale.suited v = s) (ht : Scale.suited w = t) : shown v = q :=
  le_antisymm (hborder.shown_le hv hs) (h ▸ hborder.le_shown ht)

theorem suited_ne_mega (hv : 0 ≤ v) (h : shown v = shown w) (hs : Scale.suited v = .one) :
    Scale.suited w ≠ .mega := by
  intro ht
  have hle := (Border.million.le_shown ht).trans (h.ge.trans (Border.thousand.shown_le hv hs))
  rw [WithTop.coe_le_coe] at hle
  norm_num at hle

/-- **`suited_eq_or_border`** -- values that are shown as one number have one unit, or that number
is the border between their units. -/
theorem suited_eq_or_border (hv : 0 ≤ v) (hw : 0 ≤ w) (h : shown v = shown w) :
    Scale.suited v = Scale.suited w ∨ ∃ q : ℚ, shown v = q ∧
      (Border (Scale.suited v) (Scale.suited w) q ∨
        Border (Scale.suited w) (Scale.suited v) q) := by
  cases hs : Scale.suited v <;> cases ht : Scale.suited w
  case one.one | kilo.kilo | mega.mega => exact Or.inl rfl
  case one.kilo =>
    exact Or.inr ⟨_, Border.thousand.shown_eq hv h hs ht, Or.inl .thousand⟩
  case kilo.mega =>
    exact Or.inr ⟨_, Border.million.shown_eq hv h hs ht, Or.inl .million⟩
  case kilo.one =>
    exact Or.inr ⟨_, h.trans (Border.thousand.shown_eq hw h.symm ht hs), Or.inr .thousand⟩
  case mega.kilo =>
    exact Or.inr ⟨_, h.trans (Border.million.shown_eq hw h.symm ht hs), Or.inr .million⟩
  case one.mega => exact absurd ht (suited_ne_mega hv h hs)
  case mega.one => exact absurd hs (suited_ne_mega hw h.symm ht)

/-! ## The text of a rate -/

/-- A rate without a sign has none in its unit either. -/
theorem sign_of_scaled {m n : ℕ} {e f : ℤ} {s : Bool} (scale : Scale)
    (h : scaled (finite false m e) scale = finite s n f) : s = false := by
  cases scale with
  | one =>
      injection h with hsign
      exact hsign.symm
  | kilo => exact sign_of_div_ofNat (k := 1000) (by decide) (by decide) h
  | mega => exact sign_of_div_ofNat (k := 1000000) (by decide) (by decide) h

/-- The unit in which digits are shown is the one that suits the number. -/
theorem scale_eq_suited {m : ℕ} {e : ℤ} {negative : Bool} {digits : ℕ} {scale : Scale}
    (h : ShownRate.of (finite false m e) = amount negative digits scale) :
    scale = Scale.suited (magnitude m e : ℚ) ∧ negative = false := by
  rw [ShownRate.of] at h
  split at h
  case h_1 => injection h
  case h_2 => injection h
  case h_3 hscaled =>
    injection h with hsign _ hscale
    refine ⟨hscale.symm.trans (Scale.of_finite false m e), ?_⟩
    exact hsign.symm.trans (sign_of_scaled _ hscaled)

/-- A rate without a sign is shown by digits without a sign. -/
theorem exists_digits {m : ℕ} {e : ℤ} (h : magnitude m e < 2 ^ (1024 : ℤ)) :
    ∃ digits, ShownRate.of (finite false m e) =
      amount false digits (Scale.suited (magnitude m e : ℚ)) := by
  obtain ⟨r, hr, -⟩ := value?_near ⟨false, m, e, rfl⟩ h
  obtain ⟨negative, digits, hamount⟩ := eq_amount hr
  obtain ⟨hscale, hsign⟩ := scale_eq_suited hamount
  rw [hscale, hsign] at hamount
  exact ⟨digits, hamount⟩

/-- The text tells the unit. -/
theorem scale_of_text {n n' : Bool} {d d' : ℕ} {s t : Scale}
    (h : (amount n d s).text = (amount n' d' t).text) : s = t := by
  obtain ⟨c, hlast, hmega, hkilo, hone⟩ := getLast?_amount n d s
  obtain ⟨c', hlast', hmega', hkilo', hone'⟩ := getLast?_amount n' d' t
  have hsame : c = c' := Option.some.inj (hlast.symm.trans (h ▸ hlast'))
  subst hsame
  cases s with
  | one => exact (hone'.mpr (hone.mp rfl)).symm
  | kilo => exact (hkilo'.mpr (hkilo.mp rfl)).symm
  | mega => exact (hmega'.mpr (hmega.mp rfl)).symm

/-- The number that digits denote in a unit. -/
def inScale (digits : ℕ) (scale : Scale) : ℚ := digits / 10 ^ scale.places * scale.factor

theorem inScale_lt {d d' : ℕ} {scale : Scale} : inScale d scale < inScale d' scale ↔ d < d' := by
  have hfactor : (0 : ℚ) < scale.factor := by cases scale <;> norm_num [Scale.factor]
  have hpow : (0 : ℚ) < 10 ^ scale.places := by positivity
  rw [inScale, inScale, mul_lt_mul_iff_left₀ hfactor, div_lt_div_iff_of_pos_right hpow,
    Nat.cast_lt]

theorem inScale_injective (scale : Scale) : Function.Injective (inScale · scale) :=
  StrictMono.injective fun _ _ h => inScale_lt.mpr h

/-- Digits show the number that they denote in their unit. -/
theorem shown_of_digits {m : ℕ} {e : ℤ} {d : ℕ} {scale : Scale}
    (h : ShownRate.of (finite false m e) = amount false d scale) :
    shown (magnitude m e : ℚ) = inScale d scale := by
  have hvalue := value?_of_worth (Worth.finite (s := false) (m := m) (e := e) nofun)
  rw [h] at hvalue
  exact (WithBot.coe_injective (Option.some.inj hvalue)).symm

/-- **`rateText_eq_text_iff`** -- the text of a rate is told by its unit and its number. -/
theorem rateText_eq_text_iff {m : ℕ} {e : ℤ} (h : magnitude m e < 2 ^ (1024 : ℤ)) {d : ℕ}
    {scale : Scale} :
    rateText (finite false m e) = String.ofList (amount false d scale).text ↔
      Scale.suited (magnitude m e : ℚ) = scale ∧ shown (magnitude m e : ℚ) = inScale d scale := by
  obtain ⟨digits, hof⟩ := exists_digits h
  have hshown := shown_of_digits hof
  rw [rateText, String.ofList_inj, hof, hshown, WithTop.coe_inj]
  constructor
  · intro htext
    have hscale := scale_of_text htext
    refine ⟨hscale, ?_⟩
    have hnumber := congrArg numberShown? htext
    rw [numberShown?_text, numberShown?_text] at hnumber
    exact WithTop.coe_injective (WithBot.coe_injective (Option.some.inj hnumber))
  · rintro ⟨rfl, hnumber⟩
    rw [inScale_injective _ hnumber]

/-! ## Rates at a border -/

/-- **`shown_le_shown_iff`** -- a number that is shown as more than the number before it is the
least that is shown as at least that much. -/
theorem shown_le_shown_iff {m n : ℕ} {e f : ℤ} (hm : m < 2 ^ 53) (hn : 2 ^ 52 ≤ n)
    (hjump : shown (magnitude n e : ℚ) < shown (magnitude (n + 1) e : ℚ)) :
    shown (magnitude (n + 1) e : ℚ) ≤ shown (magnitude m f : ℚ) ↔
      magnitude (n + 1) e ≤ magnitude m f := by
  constructor
  · intro h
    by_contra hless
    have hbefore := magnitude_le_before hm hn (lt_of_not_ge hless)
    have hle := shown_mono (coe_magnitude_nonneg m f) (WithTop.coe_le_coe.mpr hbefore)
    exact absurd (hjump.trans_le h) (not_lt.mpr hle)
  · intro h
    exact shown_mono (coe_magnitude_nonneg _ _) (WithTop.coe_le_coe.mpr h)

theorem inScale_thousand : inScale 1000 .one = 10 ^ 3 := by
  norm_num [inScale, Scale.places, Scale.factor]

theorem inScale_million : inScale 100000 .kilo = 10 ^ 6 := by
  norm_num [inScale, Scale.places, Scale.factor]

/-- **`rateText_eq_border_iff`** -- a rate is shown as a border in the lower unit if it is not above
the border, and not below the least rate that is rounded up to it. -/
theorem rateText_eq_border_iff {m n d : ℕ} {e f : ℤ} {s t : Scale} {q : ℚ} (hm : m < 2 ^ 53)
    (hf : f ≤ greatestExponent) (hn : 2 ^ 52 ≤ n) (hborder : Border s t q)
    (hd : inScale (d + 1) s = q) (hbefore : ShownRate.of (finite false n e) = amount false d s)
    (hleast : ShownRate.of (finite false (n + 1) e) = amount false (d + 1) s) :
    rateText (finite false m f) = String.ofList (amount false (d + 1) s).text ↔
      magnitude (n + 1) e ≤ magnitude m f ∧ magnitude m f ≤ q := by
  have hshown := shown_of_digits hleast
  have hjump : shown (magnitude n e : ℚ) < shown (magnitude (n + 1) e : ℚ) := by
    rw [hshown, shown_of_digits hbefore, WithTop.coe_lt_coe]
    exact inScale_lt.mpr d.lt_succ_self
  have hreach := shown_le_shown_iff (f := f) hm hn hjump
  rw [hshown, hd] at hreach
  rw [rateText_eq_text_iff (magnitude_lt hm hf), hd, ← hreach]
  constructor
  · rintro ⟨hscale, hnumber⟩
    exact ⟨hnumber.ge, WithTop.coe_le_coe.mp (hborder.le_iff.1 hscale)⟩
  · rintro ⟨hge, hle⟩
    have hscale : Scale.suited (magnitude m f : ℚ) = s := by
      have hsuited := (scale_eq_suited hleast).1
      have hfrom := hreach.mp hge
      cases hborder with
      | thousand => exact Scale.suited_eq_one_iff.mpr hle
      | million =>
          have habove := (Scale.suited_eq_kilo_iff.mp hsuited.symm).1
          exact Scale.suited_eq_kilo_iff.mpr ⟨habove.trans_le hfrom, hle⟩
    exact ⟨hscale, (hborder.shown_le (coe_magnitude_nonneg m f) hscale).antisymm hge⟩

/-- **`TwoTexts`** -- the two texts of a border. -/
inductive TwoTexts : String → String → Prop
  | thousand : TwoTexts "1000" "1.00K"
  | million : TwoTexts "1000.00K" "1.00M"

/-- Two rates that are shown as the border of their units are shown with its two texts. -/
theorem twoTexts_of_border {m n : ℕ} {e f : ℤ} {q : ℚ} (hm : magnitude m e < 2 ^ (1024 : ℤ))
    (hn : magnitude n f < 2 ^ (1024 : ℤ)) (hlower : shown (magnitude m e : ℚ) = q)
    (hupper : shown (magnitude n f : ℚ) = q)
    (h : Border (Scale.suited (magnitude m e : ℚ)) (Scale.suited (magnitude n f : ℚ)) q) :
    TwoTexts (rateText (finite false m e)) (rateText (finite false n f)) := by
  generalize hs : Scale.suited (magnitude m e : ℚ) = s at h
  generalize ht : Scale.suited (magnitude n f : ℚ) = t at h
  have hlowerText : ∀ d, inScale d s = q →
      rateText (finite false m e) = String.ofList (amount false d s).text := fun d hd =>
    (rateText_eq_text_iff hm).mpr ⟨hs, hd ▸ hlower⟩
  have hupperText : ∀ d, inScale d t = q →
      rateText (finite false n f) = String.ofList (amount false d t).text := fun d hd =>
    (rateText_eq_text_iff hn).mpr ⟨ht, hd ▸ hupper⟩
  cases h with
  | thousand =>
      have hunit : inScale 100 .kilo = 10 ^ 3 := by norm_num [inScale, Scale.places, Scale.factor]
      rw [hlowerText 1000 inScale_thousand, hupperText 100 hunit]
      exact .thousand
  | million =>
      have hunit : inScale 100 .mega = 10 ^ 6 := by norm_num [inScale, Scale.places, Scale.factor]
      rw [hlowerText 100000 inScale_million, hupperText 100 hunit]
      exact .million

/-- The texts of a border denote one number. -/
theorem TwoTexts.numberShown?_eq {lower upper : String} (h : TwoTexts lower upper) :
    numberShown? lower.toList = numberShown? upper.toList := by
  cases h with
  | thousand => decide +kernel
  | million => decide +kernel

/-- What the text of a rate without a sign denotes. -/
theorem numberShown?_magnitude (m : ℕ) (e : ℤ) :
    numberShown? (rateText (finite false m e)).toList =
      some (shown (magnitude m e : ℚ) : Extended) :=
  (numberShown?_rateText (Worth.finite (s := false) (m := m) (e := e) nofun)).1

/-- **`shown_eq_shown_iff`** -- rates are shown as one number if they are shown with one text, or
with the two texts of a border. -/
theorem shown_eq_shown_iff {m n : ℕ} {e f : ℤ} (hm : magnitude m e < 2 ^ (1024 : ℤ))
    (hn : magnitude n f < 2 ^ (1024 : ℤ)) :
    shown (magnitude m e : ℚ) = shown (magnitude n f : ℚ) ↔
      rateText (finite false m e) = rateText (finite false n f) ∨
        TwoTexts (rateText (finite false m e)) (rateText (finite false n f)) ∨
        TwoTexts (rateText (finite false n f)) (rateText (finite false m e)) := by
  constructor
  · intro h
    rcases suited_eq_or_border (coe_magnitude_nonneg m e) (coe_magnitude_nonneg n f) h with
      hscale | ⟨q, hq, hborder | hborder⟩
    · obtain ⟨digits, hof⟩ := exists_digits hn
      have htext : rateText (finite false n f) = String.ofList _ :=
        congrArg (fun r => String.ofList (text r)) hof
      rw [htext, rateText_eq_text_iff hm, h, shown_of_digits hof]
      exact Or.inl ⟨hscale, rfl⟩
    · exact Or.inr (Or.inl (twoTexts_of_border hm hn hq (h ▸ hq) hborder))
    · exact Or.inr (Or.inr (twoTexts_of_border hn hm (h ▸ hq) hq hborder))
  · intro h
    have hnumber : numberShown? (rateText (finite false m e)).toList =
        numberShown? (rateText (finite false n f)).toList := by
      rcases h with htext | htexts | htexts
      · rw [htext]
      · exact htexts.numberShown?_eq
      · exact htexts.numberShown?_eq.symm
    rw [numberShown?_magnitude, numberShown?_magnitude] at hnumber
    exact WithBot.coe_injective (Option.some.inj hnumber)

/-- **`rateText_same_number`** -- two rates are shown as one number if they are shown with one text,
or if that number is a thousand or a million, shown in the lower unit once and once in the upper
one. The digits of the lower unit reach the border from 999.5 and from 999995 on. -/
theorem rateText_same_number {a b : BitVec 64} (ha : (ofBits a).IsFinite)
    (hb : (ofBits b).IsFinite) (hsa : a.msb = false) (hsb : b.msb = false) :
    ((∃ q : ℚ, numberShown? (rateText (ofBits a)).toList = some ((q : WithTop ℚ) : Extended) ∧
        numberShown? (rateText (ofBits b)).toList = some ((q : WithTop ℚ) : Extended)) ↔
      rateText (ofBits a) = rateText (ofBits b) ∨
        TwoTexts (rateText (ofBits a)) (rateText (ofBits b)) ∨
        TwoTexts (rateText (ofBits b)) (rateText (ofBits a))) ∧
    (rateText (ofBits a) = "1000.00K" ↔
      999995 ≤ (ofBits a).toRat ∧ (ofBits a).toRat ≤ 10 ^ 6) ∧
    (rateText (ofBits a) = "1000" ↔ 999.5 ≤ (ofBits a).toRat ∧ (ofBits a).toRat ≤ 10 ^ 3) := by
  obtain ⟨m, e, hx, hm, he⟩ := exists_of_isFinite ha
  obtain ⟨n, f, hy, hn, hf⟩ := exists_of_isFinite hb
  rw [hsa] at hx
  rw [hsb] at hy
  rw [hx, hy]
  have hxless := magnitude_lt hm he
  have hyless := magnitude_lt hn hf
  refine ⟨?_, ?_, ?_⟩
  · obtain ⟨digits, hof⟩ := exists_digits hxless
    rw [← shown_eq_shown_iff hxless hyless, numberShown?_magnitude, numberShown?_magnitude]
    constructor
    · rintro ⟨q, hqx, hqy⟩
      exact WithBot.coe_injective (Option.some.inj (hqx.trans hqy.symm))
    · intro h
      rw [← h, shown_of_digits hof]
      exact ⟨_, rfl, rfl⟩
  · have hleast : magnitude (0x1e8475ffffffff + 1) (-33) = 999995 := by norm_num [magnitude_eq]
    have hborder := rateText_eq_border_iff (e := -33) hm he (by decide : 2 ^ 52 ≤ 0x1e8475ffffffff)
      .million inScale_million (by decide +kernel) (by decide +kernel)
    rwa [hleast] at hborder
  · have hleast : magnitude (0x1f3bffffffffff + 1) (-43) = 999.5 := by norm_num [magnitude_eq]
    have hborder := rateText_eq_border_iff (e := -43) hm he (by decide : 2 ^ 52 ≤ 0x1f3bffffffffff)
      .thousand inScale_thousand (by decide +kernel) (by decide +kernel)
    rwa [hleast] at hborder

/-- A thousand and the number after it lie on the two sides of a border. -/
theorem rateText_same_number_thousand :
    ((ofBits 0x408f400000000000).IsFinite ∧ (ofBits 0x408f400000000001).IsFinite) ∧
      ((0x408f400000000000 : BitVec 64).msb = false ∧
        (0x408f400000000001 : BitVec 64).msb = false) ∧
      rateText (ofBits 0x408f400000000000) = "1000" ∧
      rateText (ofBits 0x408f400000000001) = "1.00K" ∧
      ∃ q : ℚ, numberShown? "1000".toList = some ((q : WithTop ℚ) : Extended) ∧
        numberShown? "1.00K".toList = some ((q : WithTop ℚ) : Extended) := by
  have hfinite : (ofBits 0x408f400000000000).IsFinite ∧ (ofBits 0x408f400000000001).IsFinite :=
    ⟨⟨_, _, _, rfl⟩, ⟨_, _, _, rfl⟩⟩
  have hsign : (0x408f400000000000 : BitVec 64).msb = false ∧
    (0x408f400000000001 : BitVec 64).msb = false := ⟨by decide, by decide⟩
  have hvalue : (ofBits 0x408f400000000000).toRat = 1000 := by decide +kernel
  have habove : rateText (ofBits 0x408f400000000001) = "1.00K" := by decide +kernel
  obtain ⟨hsame, -, hborder⟩ := rateText_same_number hfinite.1 hfinite.2 hsign.1 hsign.2
  have hbelow : rateText (ofBits 0x408f400000000000) = "1000" := by
    rw [hborder, hvalue]
    norm_num
  rw [hbelow, habove] at hsame
  exact ⟨hfinite, hsign, hbelow, habove, hsame.mpr (Or.inr (Or.inl .thousand))⟩

/-- A million and the number after it are shown with one number, and with two texts. -/
theorem rateText_million_twice :
    ((ofBits 0x412e848000000000).IsFinite ∧ (ofBits 0x412e848000000001).IsFinite) ∧
      ((0x412e848000000000 : BitVec 64).msb = false ∧
        (0x412e848000000001 : BitVec 64).msb = false) ∧
      rateText (ofBits 0x412e848000000000) = "1000.00K" ∧
      rateText (ofBits 0x412e848000000001) = "1.00M" ∧
      numberShown? "1000.00K".toList = some ((10 ^ 6 : ℚ) : WithTop ℚ) ∧
      numberShown? "1.00M".toList = some ((10 ^ 6 : ℚ) : WithTop ℚ) ∧
      rateText (ofBits 0x412e848000000000) ≠ rateText (ofBits 0x412e848000000001) := by
  have hbelow : rateText (ofBits 0x412e848000000000) = "1000.00K" := by decide +kernel
  have habove : rateText (ofBits 0x412e848000000001) = "1.00M" := by decide +kernel
  refine ⟨⟨⟨_, _, _, rfl⟩, ⟨_, _, _, rfl⟩⟩, ⟨by decide, by decide⟩, hbelow, habove, ?_, ?_, ?_⟩
  · decide +kernel
  · decide +kernel
  · rw [hbelow, habove]
    decide

end ShownRate

end SharedCells
