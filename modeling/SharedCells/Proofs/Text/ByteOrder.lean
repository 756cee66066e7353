/-
# SharedCells.Proofs.Text.ByteOrder -- texts are compared byte by byte

Two texts are ordered by their first different characters. Their encodings are ordered by their
first different bytes, and that is the same order: of two characters the larger one has the larger
encoding, and neither encoding is the start of the other. `byteBefore_iff` says so for texts.
-/

import SharedCells.Text.Utf8

namespace SharedCells

/-- **`ByteBefore a b`** -- do the bytes of the first text come before those of the second? -/
def ByteBefore (a b : String) : Prop := a.toUTF8.data.toList < b.toUTF8.data.toList

/-! ## Characters -/

theorem byte_cons_lt {x y : Nat} (hx : x < 256) (hy : y < 256) (as bs : List UInt8) :
    UInt8.ofNat x :: as < UInt8.ofNat y :: bs ↔ x < y ∨ x = y ∧ as < bs := by
  rw [List.cons_lt_cons_iff, UInt8.lt_iff_toNat_lt, ← UInt8.toNat_inj, UInt8.toNat_ofNat',
    UInt8.toNat_ofNat', Nat.mod_eq_of_lt hx, Nat.mod_eq_of_lt hy]

/-- A continuation byte carries six bits, and a smaller number has smaller leading bits or the same
leading bits and a smaller rest. -/
theorem sixBits_lt {x y : Nat} (h : x < y) :
    x / 64 < y / 64 ∨ x / 64 = y / 64 ∧ x % 64 < y % 64 := by
  omega

/-- The first bytes that differ decide, whatever follows the two characters. -/
theorem encodeChar_lt {a b : Char} (h : a < b) (as bs : List UInt8) :
    String.utf8EncodeChar a ++ as < String.utf8EncodeChar b ++ bs := by
  have hlt : a.val.toNat < b.val.toNat := h
  have hb : b.val.toNat < 1114112 := by
    have := b.valid
    simp only [UInt32.isValidChar, Nat.isValidChar] at this
    omega
  generalize hx : a.val.toNat = x at hlt
  generalize hy : b.val.toNat = y at hlt hb
  -- The last six bits, the six before them, and the six before those.
  have h0 := sixBits_lt hlt
  have h1 : x / 64 < y / 64 →
      x / 4096 < y / 4096 ∨ x / 4096 = y / 4096 ∧ x / 64 % 64 < y / 64 % 64 := by
    intro h
    have := sixBits_lt h
    rwa [Nat.div_div_eq_div_mul, Nat.div_div_eq_div_mul] at this
  have h2 : x / 4096 < y / 4096 →
      x / 262144 < y / 262144 ∨ x / 262144 = y / 262144 ∧ x / 4096 % 64 < y / 4096 % 64 := by
    intro h
    have := sixBits_lt h
    rwa [Nat.div_div_eq_div_mul, Nat.div_div_eq_div_mul] at this
  have hx3 : x / 262144 % 8 = x / 262144 := by omega
  have hy3 : y / 262144 % 8 = y / 262144 := by omega
  -- One to four bytes for each of the two; a longer encoding starts with a larger byte.
  simp only [String.utf8EncodeChar, hx, hy]
  repeat' split
  all_goals
    simp (disch := omega) only [List.cons_append, List.nil_append, byte_cons_lt, hx3, hy3]
    omega

/-! ## Texts -/

theorem encode_lt {as bs : List Char} (h : as < bs) :
    as.flatMap String.utf8EncodeChar < bs.flatMap String.utf8EncodeChar := by
  induction bs generalizing as with
  | nil => exact absurd h (List.not_lt_nil as)
  | cons b bs ih =>
      cases as with
      | nil =>
          rw [List.flatMap_nil, List.flatMap_cons]
          cases hb : String.utf8EncodeChar b with
          | nil =>
              have := String.length_utf8EncodeChar b
              have := b.utf8Size_pos
              simp only [hb, List.length_nil] at *
              omega
          | cons byte rest => exact List.nil_lt_cons byte _
      | cons a as =>
          rw [List.flatMap_cons, List.flatMap_cons]
          rcases List.cons_lt_cons_iff.mp h with hab | ⟨rfl, hrest⟩
          · exact encodeChar_lt hab _ _
          · exact List.append_left_lt (ih hrest)

/-- **`byteBefore_iff`** -- the order of texts is the order of their bytes. -/
theorem byteBefore_iff (a b : String) : ByteBefore a b ↔ a < b := by
  show Utf8.encode a < Utf8.encode b ↔ _
  rw [Utf8.encode_eq_flatMap, Utf8.encode_eq_flatMap, String.lt_iff]
  constructor
  · intro h
    -- Otherwise the texts are equal or in the other order, and then so are their bytes.
    rcases Decidable.em (a.toList < b.toList) with hab | hab
    · exact hab
    · rcases Decidable.em (b.toList < a.toList) with hba | hba
      · exact absurd h (List.lt_asymm (encode_lt hba))
      · rw [List.le_antisymm hba hab] at h
        exact absurd h (List.lt_irrefl _)
  · exact encode_lt

end SharedCells
