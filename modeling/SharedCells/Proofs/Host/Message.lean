/-
# SharedCells.Proofs.Host.Message -- the sentence of a refusal, read back

A refusal is told in one sentence: the address is null, or it stands there in base 16, with the
alignment that it lacks in base 10. `numbers?` goes through such a sentence and takes the two
numbers off it, of whatever size they are; `ofMessage?` makes a refusal of them. Both are as strict
as the sentence is: capital letters and leading zeros are not written, and so they are not read.

* `numbers?_eq_some_iff` : two numbers have one sentence, and every other text names none.
* `ofMessage?_eq_some_iff` : so it is with refusals.
* `of?_eq_some_iff` : which addresses are refused, and why.
* `message_tells_refusal` : the sentence of a refused view tells whether its address is null, and
  else the address and the alignment of the cell that was asked for.
-/

import SharedCells.Host.View
import SharedCells.Proofs.Text.Radix

namespace SharedCells

namespace Refusal

variable {text : List Char} {address align : Nat} {w : Width} {p : Address} {r : Refusal}

/-! ## Reading -/

/-- **`numbers?`** -- the address and the alignment that a sentence names. -/
def numbers? (text : List Char) : Option (Nat × Nat) := do
  let text ← text.dropPrefix? "cell pointer 0x".toList
  let (address, text) ← Radix.lowerHex.takeNumeral? text
  let text ← text.dropPrefix? " is not aligned to ".toList
  let (align, text) ← Radix.decimal.takeNumeral? text
  if text = " bytes".toList then some (address, align) else none

/-- **`ofMessage?`** -- the refusal that a sentence tells, if its numbers fit into an address. -/
def ofMessage? (text : List Char) : Option Refusal :=
  if text = "cell pointer is null".toList then some null
  else
    match numbers? text with
    | some (address, align) =>
      if address < 1 <<< 64 ∧ align < 1 <<< 64 then
        some (misaligned (BitVec.ofNat 64 address) (BitVec.ofNat 64 align))
      else none
    | none => none

/-! ## The two numbers -/

/-- **`sentence`** -- what is said of an address that is not aligned. -/
def sentence (address align : Nat) : List Char :=
  "cell pointer 0x".toList ++ Numeral.hex address
    ++ " is not aligned to ".toList ++ Numeral.decimal align ++ " bytes".toList

theorem dropPrefix?_iff {beginning rest : List Char} :
    text.dropPrefix? beginning = some rest ↔ text = beginning ++ rest := by
  simp [List.dropPrefix?_eq_some_iff]

theorem numbers?_sentence (address align : Nat) :
    numbers? (sentence address align) = some (address, align) := by
  -- Behind each of the numbers comes a blank, and no digit.
  have hmiddle : " is not aligned to ".toList = ' ' :: "is not aligned to ".toList := by rfl
  have hlast : " bytes".toList = ' ' :: "bytes".toList := by rfl
  have haddress (rest : List Char) :
      Radix.lowerHex.takeNumeral? (Numeral.hex address ++ (" is not aligned to ".toList ++ rest)) =
        some (address, " is not aligned to ".toList ++ rest) := by
    rw [hmiddle]
    exact DebugFormat.takeNumeral?_append { DebugFormat.plain with radix := .lowerHex } address
      (by decide) _
  have halign : Radix.decimal.takeNumeral? (Numeral.decimal align ++ " bytes".toList) =
      some (align, " bytes".toList) := by
    rw [hlast]
    exact DebugFormat.takeNumeral?_append DebugFormat.plain align (by decide) _
  unfold numbers? sentence
  simp only [List.append_assoc, Option.bind_eq_bind]
  rw [dropPrefix?_iff.mpr rfl, Option.bind_some, haddress, Option.bind_some,
    dropPrefix?_iff.mpr rfl, Option.bind_some, halign, Option.bind_some]
  exact if_pos rfl

/-- **`numbers?_eq_some_iff`** -- a text names two numbers if it is the sentence about them. -/
theorem numbers?_eq_some_iff :
    numbers? text = some (address, align) ↔ text = sentence address align := by
  constructor
  · intro h
    obtain ⟨first, hfirst, h⟩ := Option.bind_eq_some_iff.mp h
    obtain ⟨⟨n, second⟩, hn, h⟩ := Option.bind_eq_some_iff.mp h
    obtain ⟨third, hthird, h⟩ := Option.bind_eq_some_iff.mp h
    obtain ⟨⟨m, last⟩, hm, h⟩ := Option.bind_eq_some_iff.mp h
    obtain ⟨hlast, hnumbers⟩ := Option.ite_none_right_eq_some.mp h
    obtain ⟨rfl, rfl⟩ := Prod.mk.inj (Option.some.inj hnumbers)
    have haddress : first = Numeral.hex n ++ second :=
      DebugFormat.eq_of_takeNumeral? { DebugFormat.plain with radix := .lowerHex } hn
    have halign : third = Numeral.decimal m ++ last :=
      DebugFormat.eq_of_takeNumeral? DebugFormat.plain hm
    rw [dropPrefix?_iff.mp hfirst, haddress, dropPrefix?_iff.mp hthird, halign, hlast]
    unfold sentence
    simp only [List.append_assoc]
  · rintro rfl
    exact numbers?_sentence address align

/-! ## The refusal -/

theorem numbers?_null : numbers? null.message = none := by decide

theorem message_misaligned (p q : Address) :
    (misaligned p q).message = sentence p.toNat q.toNat := by
  unfold message sentence
  rfl

theorem numbers?_misaligned (p q : Address) :
    numbers? (misaligned p q).message = some (p.toNat, q.toNat) := by
  rw [message_misaligned, numbers?_sentence]

theorem toNat_ofNat_of_fits {n : Nat} (h : n < 1 <<< 64) : (BitVec.ofNat 64 n).toNat = n :=
  (BitVec.toNat_ofNat n 64).trans (Nat.mod_eq_of_lt h)

theorem ofMessage?_message (r : Refusal) : ofMessage? r.message = some r := by
  cases r with
  | null => rfl
  | misaligned p q =>
      have hnumbers := numbers?_misaligned p q
      have hother : (misaligned p q).message ≠ "cell pointer is null".toList := by
        intro h
        rw [h] at hnumbers
        exact absurd (numbers?_null.symm.trans hnumbers) nofun
      have hfits : p.toNat < 1 <<< 64 ∧ q.toNat < 1 <<< 64 := ⟨p.isLt, q.isLt⟩
      rw [ofMessage?, if_neg hother, hnumbers]
      dsimp only
      rw [if_pos hfits, BitVec.ofNat_toNat, BitVec.ofNat_toNat, BitVec.setWidth_eq,
        BitVec.setWidth_eq]

/-- **`ofMessage?_eq_some_iff`** -- a text tells a refusal if it is the message of that refusal. -/
theorem ofMessage?_eq_some_iff : ofMessage? text = some r ↔ text = r.message := by
  constructor
  · intro h
    rw [ofMessage?] at h
    split at h
    case isTrue hnull =>
      rw [hnull, ← Option.some.inj h]
      rfl
    case isFalse =>
      cases hnumbers : numbers? text with
      | none =>
          rw [hnumbers] at h
          contradiction
      | some numbers =>
          obtain ⟨n, m⟩ := numbers
          rw [hnumbers] at h
          obtain ⟨⟨hn, hm⟩, hr⟩ := Option.ite_none_right_eq_some.mp h
          rw [numbers?_eq_some_iff.mp hnumbers, ← Option.some.inj hr, message_misaligned,
            toNat_ofNat_of_fits hn, toNat_ofNat_of_fits hm]
  · rintro rfl
    exact ofMessage?_message r

theorem message_injective {r s : Refusal} (h : r.message = s.message) : r = s :=
  Option.some.inj ((ofMessage?_message r).symm.trans (ofMessage?_eq_some_iff.mpr h))

/-! ## Refused views -/

theorem tryCellAt_eq_error_iff {m : Memory} {offset : Nat} :
    m.tryCellAt w offset = .error r ↔ of? w (m.addressOf offset) = some r := by
  rw [Memory.tryCellAt]
  cases of? w (m.addressOf offset) with
  | none => exact ⟨nofun, nofun⟩
  | some s => rw [Except.error.injEq, Option.some_inj]

/-- **`of?_eq_some_iff`** -- the null address is refused, and an address that the alignment does not
divide. -/
theorem of?_eq_some_iff :
    of? w p = some r ↔
      p = 0 ∧ r = null ∨
        p ≠ 0 ∧ ¬w.align ∣ p.toNat ∧ r = misaligned p (BitVec.ofNat 64 w.align) := by
  constructor
  · intro h
    rw [of?] at h
    split at h
    case isTrue hnull => exact .inl ⟨hnull, (Option.some.inj h).symm⟩
    case isFalse hnull =>
      split at h
      case isTrue hcrooked =>
        exact .inr ⟨hnull, mt Nat.mod_eq_zero_of_dvd hcrooked, (Option.some.inj h).symm⟩
      case isFalse => contradiction
  · rintro (⟨hnull, rfl⟩ | ⟨hnull, hcrooked, rfl⟩)
    · rw [of?, if_pos hnull]
    · rw [of?, if_neg hnull, if_pos (mt Nat.dvd_of_mod_eq_zero hcrooked)]

theorem numbers?_message_iff {q : Address} :
    numbers? r.message = some (p.toNat, q.toNat) ↔ r = misaligned p q := by
  rw [numbers?_eq_some_iff, ← message_misaligned]
  exact ⟨message_injective, congrArg message⟩

/-- **`message_tells_refusal`** -- the two numbers stand in the message, a text is read as a refusal
only if it is the message of that refusal, and refusals with one message are equal. So the message
of a refused view tells whether the address was null, and else gives the address and the alignment
that does not divide it. -/
theorem message_tells_refusal :
    (∀ p q : Address, numbers? (misaligned p q).message = some (p.toNat, q.toNat)) ∧
      (∀ (text : List Char) (r : Refusal), ofMessage? text = some r ↔ text = r.message) ∧
      (∀ r s : Refusal, r.message = s.message ↔ r = s) ∧
      ∀ (m : Memory) (w : Width) (offset : Nat) (r : Refusal),
        m.tryCellAt w offset = .error r ↔
          m.addressOf offset = 0 ∧ ofMessage? r.message = some null ∨
            m.addressOf offset ≠ 0 ∧ ¬w.align ∣ (m.addressOf offset).toNat ∧
              numbers? r.message = some ((m.addressOf offset).toNat, w.align) := by
  refine ⟨numbers?_misaligned, fun _ _ => ofMessage?_eq_some_iff,
    fun _ _ => ⟨message_injective, congrArg message⟩, fun m w offset r => ?_⟩
  have halign : (BitVec.ofNat 64 w.align).toNat = w.align := by cases w <;> rfl
  have hnull : ofMessage? r.message = some null ↔ r = null :=
    ⟨fun h => message_injective (ofMessage?_eq_some_iff.mp h), fun h => h ▸ ofMessage?_message r⟩
  have hnumbers := numbers?_message_iff (r := r) (p := m.addressOf offset)
    (q := BitVec.ofNat 64 w.align)
  rw [halign] at hnumbers
  rw [tryCellAt_eq_error_iff, of?_eq_some_iff, hnull, hnumbers]

/-- A number that is not written so is not read either. -/
example : ofMessage? "cell pointer 0x0F is not aligned to 8 bytes".toList = none := by decide

end Refusal

end SharedCells
