/-
# SharedCells.Proofs.Rate.Reading -- the number that a shown rate denotes

A rate is shown as a decimal, or as `inf`, with a sign before it and a unit after it. `numberShown?`
reads such a text as a person would: the decimal times the unit, and an infinity above or below all
numbers. It knows nothing of how rates are written, and `numberShown?_text` says that it reads them
as they are meant.

A shown rate has neither blanks nor line feeds in it: `text_plain`.
-/

import Mathlib.Algebra.Order.Field.Rat
import Mathlib.Algebra.Order.Monoid.Unbundled.WithTop
import Mathlib.Data.Nat.Digits.Defs
import Mathlib.Tactic.FieldSimp
import Mathlib.Tactic.NormNum
import Mathlib.Tactic.Positivity
import SharedCells.Proofs.Text.Cut
import SharedCells.Rate

namespace SharedCells

/-- **`Extended`** -- the rational numbers between two infinities. -/
abbrev Extended := WithBot (WithTop ℚ)

namespace ShownRate

/-! ## Reading -/

/-- **`ofDecimal?`** -- the number that digits denote, of which some may follow a point. -/
def ofDecimal? (cs : List Char) : Option ℚ :=
  let whole := Numeral.ofDigits? (cs.takeWhile (· ≠ '.'))
  match cs.dropWhile (· ≠ '.') with
  | [] => whole.map fun n => (n : ℚ)
  | _ :: decimals => do
      let n ← whole
      let m ← Numeral.ofDigits? decimals
      some (n + m / 10 ^ decimals.length)

/-- A text without the unit that it ends in, and the unit. -/
def splitUnit (cs : List Char) : List Char × Scale :=
  match cs.getLast? with
  | some 'M' => (cs.dropLast, .mega)
  | some 'K' => (cs.dropLast, .kilo)
  | _ => (cs, .one)

/-- A magnitude with its unit. -/
def magnitude? (cs : List Char) : Option (WithTop ℚ) :=
  let (digits, scale) := splitUnit cs
  if digits = "inf".toList then some ⊤
  else (ofDecimal? digits).map fun q => ((q * scale.factor : ℚ) : WithTop ℚ)

/-- A magnitude with a sign. -/
def signed (negative : Bool) : WithTop ℚ → Extended
  | none => if negative then ⊥ else ⊤
  | some q => ((if negative then -q else q : ℚ) : WithTop ℚ)

/-- **`numberShown?`** -- the number that the text of a rate denotes. -/
def numberShown? : List Char → Option Extended
  | '-' :: cs => (magnitude? cs).map (signed true)
  | cs => (magnitude? cs).map (signed false)

/-- **`value?`** -- the number that a rate is shown as. -/
def value? : ShownRate → Option Extended
  | nan => none
  | infinite negative _ => some (signed negative ⊤)
  | amount negative digits scale =>
    some (signed negative ((digits / 10 ^ scale.places * scale.factor : ℚ) : WithTop ℚ))

/-! ## Decimals -/

/-- The decimals that follow the point, zeros first. -/
def padded (n places : ℕ) : List Char :=
  List.replicate (places - (Numeral.decimal n).length) '0' ++ Numeral.decimal n

theorem decimalText_zero (digits : ℕ) : decimalText digits 0 = Numeral.decimal digits := rfl

theorem decimalText_pos (digits : ℕ) {places : ℕ} (h : 0 < places) :
    decimalText digits places =
      Numeral.decimal (digits / 10 ^ places) ++ '.' :: padded (digits % 10 ^ places) places := by
  rw [decimalText, if_neg (by omega), padded]
  simp only [Nat.pow_eq, List.append_assoc, List.cons_append, List.nil_append]

theorem isDigit_of_mem_padded {n places : ℕ} {c : Char} (h : c ∈ padded n places) :
    c.isDigit = true := by
  rcases List.mem_append.mp h with hzero | hdigit
  · rw [List.eq_of_mem_replicate hzero]
    rfl
  · exact Numeral.isDigit_of_mem_decimal hdigit

theorem length_padded {n places : ℕ} (hp : 0 < places) (h : n < 10 ^ places) :
    (padded n places).length = places := by
  have hlen : (Numeral.decimal n).length ≤ places := Nat.toDigits_length 10 n places hp h
  rw [padded, List.length_append, List.length_replicate]
  omega

/-- Leading zeros do not change a number. -/
theorem ofDigits?_padded (n places : ℕ) : Numeral.ofDigits? (padded n places) = some n := by
  have hne : padded n places ≠ [] := by
    intro hnil
    exact Numeral.decimal_ne_nil n (List.append_eq_nil_iff.mp hnil).2
  have hzeros : ∀ k, Nat.ofDigitChars 10 (List.replicate k '0') 0 = 0 := by
    intro k
    induction k with
    | zero => rfl
    | succ k ih =>
        rw [List.replicate_succ, Nat.ofDigitChars_cons]
        exact ih
  have hall : (padded n places).all Char.isDigit = true :=
    List.all_eq_true.mpr fun c hc => isDigit_of_mem_padded hc
  rw [Numeral.ofDigits?, if_pos ⟨hne, hall⟩, padded, Nat.ofDigitChars_append, hzeros,
    Numeral.decimal, Nat.ofDigitChars_toDigits (by decide) (by decide)]

theorem point_not_mem_decimal (n : ℕ) : '.' ∉ Numeral.decimal n := fun h =>
  absurd (Numeral.isDigit_of_mem_decimal h) (by decide)

/-- **`ofDecimal?_decimalText`** -- what is written with some decimals is read as a fraction. -/
theorem ofDecimal?_decimalText (digits places : ℕ) :
    ofDecimal? (decimalText digits places) = some ((digits : ℚ) / 10 ^ places) := by
  have hwhole := point_not_mem_decimal
  rcases Nat.eq_zero_or_pos places with rfl | hp
  · rw [decimalText_zero, ofDecimal?, Text.takeWhile_ne_self (hwhole digits),
      Text.dropWhile_ne_nil (hwhole digits), Numeral.ofDigits?_decimal]
    simp
  · set unit := 10 ^ places with hunit
    have hpos : 0 < unit := by positivity
    rw [decimalText_pos digits hp, ← hunit, ofDecimal?, Text.takeWhile_ne (hwhole _),
      Text.dropWhile_ne (hwhole _), Numeral.ofDigits?_decimal]
    dsimp only [Option.bind_eq_bind, Option.bind_some]
    rw [ofDigits?_padded, length_padded hp (Nat.mod_lt _ hpos)]
    dsimp only [Option.bind_some]
    have hsplit : ((digits / unit : ℕ) : ℚ) * unit + (digits % unit : ℕ) = digits := by
      exact_mod_cast Nat.div_add_mod' digits unit
    have hne : (unit : ℚ) ≠ 0 := by exact_mod_cast hpos.ne'
    rw [Option.some.injEq, ← hsplit, hunit]
    push_cast
    field_simp

/-! ## Rates -/

theorem mem_decimalText {digits places : ℕ} {c : Char} (h : c ∈ decimalText digits places) :
    c.isDigit = true ∨ c = '.' := by
  rcases Nat.eq_zero_or_pos places with rfl | hp
  · exact Or.inl (Numeral.isDigit_of_mem_decimal h)
  · rw [decimalText_pos digits hp] at h
    rcases List.mem_append.mp h with hwhole | htail
    · exact Or.inl (Numeral.isDigit_of_mem_decimal hwhole)
    · rcases List.mem_cons.mp htail with rfl | hpadded
      · exact Or.inr rfl
      · exact Or.inl (isDigit_of_mem_padded hpadded)

/-- A character that is neither a digit nor a point is in no decimal. -/
theorem not_mem_decimalText {c : Char} (digits places : ℕ) (hd : c.isDigit = false)
    (hp : c ≠ '.') : c ∉ decimalText digits places := by
  intro h
  rcases mem_decimalText h with hdigit | hpoint
  · rw [hd] at hdigit
    exact absurd hdigit nofun
  · exact hp hpoint

/-- The unit is told by the last character, if the digits do not end in the name of one. -/
theorem splitUnit_append {cs : List Char} (scale : Scale) (hm : 'M' ∉ cs) (hk : 'K' ∉ cs) :
    splitUnit (cs ++ scale.suffix) = (cs, scale) := by
  cases scale with
  | one =>
      rw [Scale.suffix, List.append_nil, splitUnit]
      split
      case h_1 hlast => exact absurd (List.mem_of_getLast? hlast) hm
      case h_2 hlast => exact absurd (List.mem_of_getLast? hlast) hk
      case h_3 => rfl
  | kilo =>
      rw [Scale.suffix, splitUnit, List.getLast?_concat, List.dropLast_concat]
      rfl
  | mega =>
      rw [Scale.suffix, splitUnit, List.getLast?_concat, List.dropLast_concat]
      rfl

theorem magnitude?_inf (scale : Scale) : magnitude? ("inf".toList ++ scale.suffix) = some ⊤ := by
  rw [magnitude?, splitUnit_append scale (by decide) (by decide)]
  exact if_pos rfl

theorem magnitude?_decimalText (digits : ℕ) (scale : Scale) :
    magnitude? (decimalText digits scale.places ++ scale.suffix) =
      some ((digits / 10 ^ scale.places * scale.factor : ℚ) : WithTop ℚ) := by
  have hletter : ∀ c : Char, c.isDigit = false → c ≠ '.' → c ∉ decimalText digits scale.places :=
    fun c => not_mem_decimalText digits scale.places
  have hinf : decimalText digits scale.places ≠ "inf".toList := by
    intro h
    exact hletter 'i' (by decide) (by decide) (h ▸ List.mem_cons_self)
  rw [magnitude?, splitUnit_append scale (hletter 'M' (by decide) (by decide))
    (hletter 'K' (by decide) (by decide))]
  dsimp only
  rw [if_neg hinf, ofDecimal?_decimalText]
  rfl

/-- A minus sign is read as one, and what has none is positive. -/
theorem numberShown?_signed (negative : Bool) {cs : List Char} (h : '-' ∉ cs) :
    numberShown? (signText negative ++ cs) = (magnitude? cs).map (signed negative) := by
  cases negative with
  | true => rfl
  | false =>
      show numberShown? cs = _
      unfold numberShown?
      split
      case h_1 => exact absurd List.mem_cons_self h
      case h_2 => rfl

theorem not_mem_suffix {c : Char} (scale : Scale) (hm : c ≠ 'M') (hk : c ≠ 'K') :
    c ∉ scale.suffix := by
  cases scale with
  | one => exact List.not_mem_nil
  | kilo => exact fun h => hk (List.mem_singleton.mp h)
  | mega => exact fun h => hm (List.mem_singleton.mp h)

/-- **`numberShown?_text`** -- the text of a rate denotes the number that it is shown as. -/
theorem numberShown?_text (r : ShownRate) : numberShown? r.text = r.value? := by
  cases r with
  | nan => decide
  | infinite negative scale =>
      have hminus : '-' ∉ "inf".toList ++ scale.suffix := by
        rw [List.mem_append, not_or]
        exact ⟨by decide, not_mem_suffix scale (by decide) (by decide)⟩
      rw [text, List.append_assoc, numberShown?_signed negative hminus, magnitude?_inf]
      rfl
  | amount negative digits scale =>
      have hminus : '-' ∉ decimalText digits scale.places ++ scale.suffix := by
        rw [List.mem_append, not_or]
        exact ⟨not_mem_decimalText _ _ (by decide) (by decide),
          not_mem_suffix scale (by decide) (by decide)⟩
      rw [text, List.append_assoc, numberShown?_signed negative hminus, magnitude?_decimalText]
      rfl

/-- The last character is that of the unit, and a digit where there is none. -/
theorem getLast?_amount (negative : Bool) (digits : ℕ) (scale : Scale) :
    ∃ c, (amount negative digits scale).text.getLast? = some c ∧
      (scale = .mega ↔ c = 'M') ∧ (scale = .kilo ↔ c = 'K') ∧
      (scale = .one ↔ c.isDigit = true) := by
  cases scale with
  | kilo => exact ⟨'K', List.getLast?_concat .., by decide, by decide, by decide⟩
  | mega => exact ⟨'M', List.getLast?_concat .., by decide, by decide, by decide⟩
  | one =>
      have hne := Numeral.decimal_ne_nil digits
      have hdigit := Numeral.isDigit_of_mem_decimal (List.getLast_mem hne)
      have hother : ∀ c : Char, c.isDigit = false → (Numeral.decimal digits).getLast hne ≠ c := by
        rintro c hc rfl
        rw [hdigit] at hc
        exact absurd hc nofun
      refine ⟨(Numeral.decimal digits).getLast hne, ?_, ?_, ?_, iff_of_true rfl hdigit⟩
      · show (signText negative ++ Numeral.decimal digits ++ []).getLast? = _
        rw [List.append_nil, List.getLast?_append_of_ne_nil _ hne]
        exact List.getLast?_eq_some_getLast hne
      · exact iff_of_false nofun (hother 'M' (by decide))
      · exact iff_of_false nofun (hother 'K' (by decide))

/-- **`text_plain`** -- a shown rate is one word. -/
theorem text_plain (r : ShownRate) : ' ' ∉ r.text ∧ '\n' ∉ r.text := by
  have hplain : ∀ c : Char, c.isDigit = false → c ∉ ['-', '.', 'i', 'n', 'f', 'N', 'a', 'K', 'M'] →
      c ∉ r.text := by
    intro c hd hc
    simp only [List.mem_cons, List.not_mem_nil, or_false, not_or] at hc
    obtain ⟨hminus, hpoint, hi, hn, hf, hN, ha, hk, hm⟩ := hc
    have hsign : ∀ negative, c ∉ signText negative := by
      rintro (_ | _)
      · exact List.not_mem_nil
      · simp [signText, hminus]
    cases r with
    | nan => simp [text, hN, ha]
    | infinite negative scale =>
        simp [text, hsign, not_mem_suffix scale hm hk, hi, hn, hf]
    | amount negative digits scale =>
        simp [text, hsign, not_mem_suffix scale hm hk, not_mem_decimalText _ _ hd hpoint]
  exact ⟨hplain ' ' (by decide) (by decide), hplain '\n' (by decide) (by decide)⟩

end ShownRate

end SharedCells
