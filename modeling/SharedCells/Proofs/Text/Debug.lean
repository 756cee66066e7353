/-
# SharedCells.Proofs.Text.Debug -- the developer's text of a cell, read back

A cell is written as its name with its value in brackets. The value is a number with an optional
plus sign, an optional `0x` and digits, filled up to the format's width. `readNumber?` takes all of
this off again: the fill on both sides, the sign, the `0x` and the leading zeros; what is left is
read in the format's base.

* `number_eq` : where the fill and the zeros of a number stand.
* `length_number` : how long a number is.
* `readNumber?_number` : reading gives back the number, whatever its size and the format's width, if
  the fill is no part of a number.
* `Cell.debugText_tells_value` : so the text of a cell tells its value in every format there is a
  name for, and to print a cell leaves it as it is.
-/

import Mathlib.Data.List.DropRight
import SharedCells.Call
import SharedCells.Proofs.Text.Radix

namespace SharedCells

namespace DebugFormat

/-! ## Reading -/

/-- A text without the fill around it. -/
def strip (fill : Char) (cs : List Char) : List Char :=
  (cs.dropWhile (· = fill)).rdropWhile (· = fill)

/-- A text without its beginning, if it begins like that. -/
def without (beginning cs : List Char) : List Char :=
  if beginning <+: cs then cs.drop beginning.length else cs

/-- **`readNumber?`** -- the number that a text shows in a format. -/
def readNumber? (f : DebugFormat) (cs : List Char) : Option Nat :=
  let digits := (without ['0', 'x'] (without ['+'] (strip f.fill cs))).dropWhile (· = '0')
  f.radix.value? digits

/-- **`Clear`** -- the fill is no part of a number. -/
def Clear (f : DebugFormat) : Prop :=
  f.fill ≠ '+' ∧ f.fill ≠ 'x' ∧ Numeral.hexDigit? f.fill = none

variable {f : DebugFormat}

/-- Fill in front of something else is dropped. -/
theorem dropWhile_fill {fill : Char} {cs : List Char} (hne : cs ≠ []) (h : fill ∉ cs) (k : Nat)
    (rest : List Char) :
    (List.replicate k fill ++ (cs ++ rest)).dropWhile (· = fill) = cs ++ rest := by
  obtain ⟨c, cs, rfl⟩ := List.exists_cons_of_ne_nil hne
  have hc : c ≠ fill := fun heq => h (heq ▸ List.mem_cons_self)
  rw [List.dropWhile_append_of_pos fun d hd => decide_eq_true (List.eq_of_mem_replicate hd),
    List.cons_append, List.dropWhile_cons_of_neg (by simpa using hc)]

theorem strip_of_not_mem {fill : Char} {cs : List Char} (hne : cs ≠ []) (h : fill ∉ cs)
    (k l : Nat) : strip fill (List.replicate k fill ++ cs ++ List.replicate l fill) = cs := by
  have hback := dropWhile_fill (List.reverse_ne_nil_iff.mpr hne) (mt List.mem_reverse.mp h) l []
  rw [strip, List.append_assoc, dropWhile_fill hne h, List.rdropWhile, List.reverse_append,
    List.reverse_replicate, ← List.append_nil cs.reverse, hback, List.append_nil,
    List.reverse_reverse]

theorem without_append (beginning cs : List Char) : without beginning (beginning ++ cs) = cs := by
  rw [without, if_pos (List.prefix_append ..), List.drop_left]

theorem without_of_not_mem {beginning cs : List Char} {c : Char} (hc : c ∈ beginning)
    (h : c ∉ cs) : without beginning cs = cs := by
  rw [without, if_neg fun hstarts => h (hstarts.subset hc)]

/-! ## What a number is made of -/

/-- The plus sign, where the format has one. -/
def sign (f : DebugFormat) : List Char := if f.plus then ['+'] else []

/-- The `0x`, where the format has one. -/
def mark (f : DebugFormat) : List Char :=
  if f.spread ∧ f.radix ≠ .decimal then ['0', 'x'] else []

/-- The digits, with zeros before them. -/
def padded (f : DebugFormat) (zeros n : Nat) : List Char := List.replicate zeros '0' ++ f.digits n

/-- **`number_eq`** -- a number is filled up on its sides, or with zeros. -/
theorem number_eq (f : DebugFormat) (n : Nat) : ∃ before zeros after,
    f.number n = List.replicate before f.fill ++ (f.sign ++ (f.mark ++ f.padded zeros n)) ++
      List.replicate after f.fill := by
  have hlead : f.lead = f.sign ++ f.mark := rfl
  simp only [number, hlead]
  generalize f.width - ((f.sign ++ f.mark).length + (f.digits n).length) = missing
  split
  case isTrue =>
    refine ⟨0, missing, 0, ?_⟩
    simp only [padded, List.replicate_zero, List.nil_append, List.append_nil, List.append_assoc]
  case isFalse =>
    have hbody : f.sign ++ (f.mark ++ f.padded 0 n) = f.sign ++ f.mark ++ f.digits n := by
      simp only [padded, List.replicate_zero, List.nil_append, List.append_assoc]
    exact ⟨_, 0, _, by rw [hbody]⟩

/-- **`length_number`** -- a number is as long as the format's width, or longer than that if it has
to be. -/
theorem length_number (f : DebugFormat) (n : Nat) :
    (f.number n).length = max f.width (f.lead.length + (f.digits n).length) := by
  simp only [number]
  split
  case isTrue =>
    simp only [List.length_append, List.length_replicate]
    omega
  case isFalse =>
    simp only [List.length_append, List.length_replicate]
    split <;> omega

theorem hexDigit?_of_digit? {r : Radix} {c : Char} {d : Nat} (h : r.digit? c = some d) :
    Numeral.hexDigit? c ≠ none := by
  cases r with
  | decimal =>
      have hdigit : c.isDigit = true := by
        by_contra hnot
        exact absurd ((if_neg hnot).symm.trans h) nofun
      rw [Numeral.hexDigit?, if_pos hdigit]
      exact Option.some_ne_none _
  | lowerHex => exact fun hnone => absurd (hnone.symm.trans h) nofun
  | upperHex => exact fun hnone => absurd (hnone.symm.trans h) nofun

/-- The digits and the zeros before them are digits. -/
theorem hexDigit?_of_mem_padded {zeros n : Nat} {c : Char} (hc : c ∈ f.padded zeros n) :
    Numeral.hexDigit? c ≠ none := by
  rcases List.mem_append.mp hc with hzero | hdigit
  · rw [List.eq_of_mem_replicate hzero]
    decide
  · obtain ⟨d, hd, rfl⟩ := exists_letter_of_mem_digits f hdigit
    exact hexDigit?_of_digit? (Radix.digit?_letter hd)

theorem mem_mark {c : Char} (h : c ∈ f.mark) : c = '0' ∨ c = 'x' := by
  rw [mark] at h
  split at h
  · simpa using h
  · exact absurd h List.not_mem_nil

theorem mem_sign {c : Char} (h : c ∈ f.sign) : c = '+' := by
  rw [sign] at h
  split at h
  · simpa using h
  · exact absurd h List.not_mem_nil

/-- The sign is taken off, and nothing else if there is none. -/
theorem without_sign (zeros n : Nat) :
    without ['+'] (f.sign ++ (f.mark ++ f.padded zeros n)) = f.mark ++ f.padded zeros n := by
  have hother : '+' ∉ f.mark ++ f.padded zeros n := by
    intro h
    rcases List.mem_append.mp h with hmark | hpadded
    · exact absurd (mem_mark hmark) (by decide)
    · exact hexDigit?_of_mem_padded hpadded (by decide)
  rw [sign]
  split
  · exact without_append ['+'] _
  · exact without_of_not_mem List.mem_cons_self hother

/-- So is the `0x`. -/
theorem without_mark (zeros n : Nat) :
    without ['0', 'x'] (f.mark ++ f.padded zeros n) = f.padded zeros n := by
  have hother : 'x' ∉ f.padded zeros n := fun h => hexDigit?_of_mem_padded h (by decide)
  rw [mark]
  split
  · exact without_append ['0', 'x'] _
  · exact without_of_not_mem (by decide) hother

/-- **`readNumber?_number`** -- a number in a format is read back. -/
theorem readNumber?_number (hclear : f.Clear) (n : Nat) : f.readNumber? (f.number n) = some n := by
  obtain ⟨before, zeros, after, hnumber⟩ := number_eq f n
  obtain ⟨hplus, hx, hdigit⟩ := hclear
  have hfill : f.fill ∉ f.sign ++ (f.mark ++ f.padded zeros n) := by
    intro h
    rcases List.mem_append.mp h with hsign | h
    · exact hplus (mem_sign hsign)
    rcases List.mem_append.mp h with hmark | hpadded
    · rcases mem_mark hmark with hzero | hmark
      · rw [hzero] at hdigit
        exact absurd hdigit (by decide)
      · exact hx hmark
    · exact hexDigit?_of_mem_padded hpadded hdigit
  have hne : f.sign ++ (f.mark ++ f.padded zeros n) ≠ [] := fun hnil =>
    digits_ne_nil f n (by simp_all [padded])
  rw [hnumber, readNumber?, strip_of_not_mem hne hfill, without_sign, without_mark]
  show f.radix.value? _ = some n
  rw [Radix.value?_dropWhile_zero, padded, Radix.value?_replicate_zero, value?_digits]

/-! ## The text of a cell -/

/-- A text in the brackets of a cell's name, on a line of its own if the format spreads. -/
def bracketed (f : DebugFormat) (cs : List Char) : List Char :=
  if f.spread then "AtomicCell(\n    ".toList ++ cs ++ ",\n)".toList
  else "AtomicCell(".toList ++ cs ++ ")".toList

theorem tuple_eq_bracketed (f : DebugFormat) (cs : List Char) :
    f.tuple "AtomicCell" [cs] = f.bracketed cs := by
  rw [tuple, parts, bracketed]
  split
  · simp
  · simp

theorem bracketed_inj {cs ds : List Char} : f.bracketed cs = f.bracketed ds ↔ cs = ds := by
  rw [bracketed, bracketed]
  split
  · rw [List.append_left_inj, List.append_right_inj]
  · rw [List.append_left_inj, List.append_right_inj]

/-- The fill of no format that has a name is part of a number. -/
theorem clear_of_ofText? {spec : String} (h : ofText? spec = some f) : f.Clear := by
  have hall : ∀ entry ∈ named, entry.2.Clear := by
    unfold Clear
    decide
  obtain ⟨before, after, hnamed, -⟩ := List.lookup_eq_some_iff.mp h
  exact hall (spec, f) (hnamed ▸ List.mem_append_right before List.mem_cons_self)

end DebugFormat

namespace Cell

variable {w : Width}

theorem debugText_eq (c : Cell w) (f : DebugFormat) :
    c.debugText f = String.ofList (f.bracketed (f.number c.value.toNat)) := by
  rw [debugText, DebugFormat.tuple_eq_bracketed, load_eq]

/-- **`debugText_tells_value`** -- in every format that has a name, the text of a cell is its value
in brackets, filled up to the width; the value is read back from it, and so cells with one text hold
one value. The cell stays as it is. -/
theorem debugText_tells_value {spec : String} {f : DebugFormat}
    (h : DebugFormat.ofText? spec = some f) (c : Cell w) :
    c.debugText f = String.ofList (f.bracketed (f.number c.value.toNat)) ∧
      f.width ≤ (f.number c.value.toNat).length ∧
      f.readNumber? (f.number c.value.toNat) = some c.value.toNat ∧
      (∀ c' : Cell w, c.debugText f = c'.debugText f ↔ c.value = c'.value) ∧
      ∀ spurious, (Call.debug f).run spurious c = (.text (c.debugText f), c) := by
  have hread := DebugFormat.readNumber?_number (DebugFormat.clear_of_ofText? h)
  have hwidth := (le_max_left ..).trans (DebugFormat.length_number f c.value.toNat).ge
  refine ⟨debugText_eq c f, hwidth, hread _, fun c' => ?_, fun _ => rfl⟩
  rw [debugText_eq, debugText_eq, String.ofList_inj, DebugFormat.bracketed_inj]
  constructor
  · intro hnumber
    have hnat := (hread _).symm.trans ((congrArg f.readNumber? hnumber).trans (hread _))
    exact BitVec.eq_of_toNat_eq (Option.some.inj hnat)
  · intro hvalue
    rw [hvalue]

/-- A byte with zeros between its `0x` and its digits. -/
theorem debugText_tells_value_padded :
    let f : DebugFormat := ⟨true, false, true, 10, ' ', .right, .lowerHex⟩
    let c : Cell .byte := ⟨4096, 171⟩
    DebugFormat.ofText? "\x7b:#010x?\x7d" = some f ∧
      c.debugText f = "AtomicCell(\n    0x000000ab,\n)" ∧
      f.readNumber? "0x000000ab".toList = some 171 ∧
      ∀ c' : Cell .byte, "AtomicCell(\n    0x000000ab,\n)" = c'.debugText f ↔ 171 = c'.value := by
  intro f c
  have hformat : DebugFormat.ofText? "\x7b:#010x?\x7d" = some f := by rfl
  have htext : c.debugText f = "AtomicCell(\n    0x000000ab,\n)" := by decide
  have hnumber : f.number c.value.toNat = "0x000000ab".toList := by decide
  obtain ⟨-, -, hread, hsame, -⟩ := debugText_tells_value hformat c
  rw [htext] at hsame
  rw [hnumber] at hread
  exact ⟨hformat, htext, hread, hsame⟩

end Cell

end SharedCells
