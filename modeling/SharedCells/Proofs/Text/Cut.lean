/-
# SharedCells.Proofs.Text.Cut -- texts cut in two

A reader takes a text up to the first character it has no use for, and goes on from there. Where a
text is put together from two parts, and that character stands first in the second one, the reader
cuts it into the two parts again.

* `takeWhile_cut`, `dropWhile_cut` : the part before the cut, and the part behind it.
* `takeWhile_ne`, `dropWhile_ne` : the same for a text cut at a separator.
-/

import Mathlib.Data.List.TakeWhile

namespace SharedCells

namespace Text

variable {cs : List Char} {c : Char} {p : Char → Bool}

theorem takeWhile_cut (hcs : ∀ d ∈ cs, p d = true) (hc : p c = false) (rest : List Char) :
    (cs ++ c :: rest).takeWhile p = cs := by
  rw [List.takeWhile_append_of_pos hcs, List.takeWhile_cons_of_neg (by simp [hc]), List.append_nil]

theorem dropWhile_cut (hcs : ∀ d ∈ cs, p d = true) (hc : p c = false) (rest : List Char) :
    (cs ++ c :: rest).dropWhile p = c :: rest := by
  rw [List.dropWhile_append_of_pos hcs, List.dropWhile_cons_of_neg (by simp [hc])]

/-! ## Separators -/

theorem forall_ne_of_not_mem (h : c ∉ cs) : ∀ d ∈ cs, decide (d ≠ c) = true := by
  intro d hd
  exact decide_eq_true fun heq => h (heq ▸ hd)

theorem takeWhile_ne (h : c ∉ cs) (rest : List Char) :
    (cs ++ c :: rest).takeWhile (· ≠ c) = cs :=
  takeWhile_cut (forall_ne_of_not_mem h) (by simp) rest

theorem dropWhile_ne (h : c ∉ cs) (rest : List Char) :
    (cs ++ c :: rest).dropWhile (· ≠ c) = c :: rest :=
  dropWhile_cut (forall_ne_of_not_mem h) (by simp) rest

/-- A text without the separator is not cut. -/
theorem takeWhile_ne_self (h : c ∉ cs) : cs.takeWhile (· ≠ c) = cs :=
  List.takeWhile_eq_self_iff.mpr (forall_ne_of_not_mem h)

theorem dropWhile_ne_nil (h : c ∉ cs) : cs.dropWhile (· ≠ c) = [] :=
  List.dropWhile_eq_nil_iff.mpr (forall_ne_of_not_mem h)

end Text

end SharedCells
