/-
# SharedCells.Proofs.Report.Table -- a table holds one row per key, in order

Inserting keeps the rows of a table in strictly increasing order, so no key occurs twice, and the
table depends on its rows alone: `Ordered.eq_of_mem_iff`. If no two of the rows inserted have the
same key, the table holds all of them and nothing else: `mem_ofRows`.

The sections of an ordered table list its groups in strictly increasing order, and each section
all rows of its group.
-/

import Mathlib.Data.List.Flatten
import Mathlib.Data.List.Induction
import Mathlib.Data.List.Sort
import SharedCells.Report.Table

namespace SharedCells.Report

/-! ## The order of rows -/

namespace Row

variable {a b c : Row}

theorem not_before_self (a : Row) : ¬ a.Before a := by
  rintro (h | ⟨-, h⟩)
  · exact List.lt_irrefl _ h
  · exact List.lt_irrefl _ h

theorem Before.trans (hab : a.Before b) (hbc : b.Before c) : a.Before c := by
  rcases hab with h1 | ⟨hg1, h1⟩
  · rcases hbc with h2 | ⟨hg2, -⟩
    · exact Or.inl (List.lt_trans h1 h2)
    · exact Or.inl (hg2 ▸ h1)
  · rcases hbc with h2 | ⟨hg2, h2⟩
    · exact Or.inl (hg1 ▸ h2)
    · exact Or.inr ⟨hg1.trans hg2, List.lt_trans h1 h2⟩

theorem eq_of_not_lt {x y : String} (hxy : ¬ x < y) (hyx : ¬ y < x) : x = y :=
  String.toList_inj.mp (List.le_antisymm hyx hxy)

/-- Of two rows with different keys one stands before the other. -/
theorem before_of_not (key : ¬ a.SameKey b) (h : ¬ a.Before b) : b.Before a := by
  by_cases hg : b.group < a.group
  · exact Or.inl hg
  · have hgroup : a.group = b.group := eq_of_not_lt (fun hlt => h (Or.inl hlt)) hg
    refine Or.inr ⟨hgroup.symm, ?_⟩
    by_cases hf : b.function < a.function
    · exact hf
    · have hfunction : a.function = b.function :=
        eq_of_not_lt (fun hlt => h (Or.inr ⟨hgroup, hlt⟩)) hf
      exact absurd ⟨hgroup, hfunction⟩ key

theorem Before.not_sameKey (h : a.Before b) : ¬ a.SameKey b := by
  rintro ⟨hgroup, hfunction⟩
  refine not_before_self a ?_
  rw [Before, ← hgroup, ← hfunction] at h
  exact h

theorem SameKey.before (key : a.SameKey b) (h : b.Before c) : a.Before c := by
  rw [Before, key.1, key.2]
  exact h

instance : Std.Irrefl Before := ⟨not_before_self⟩

instance : Std.Antisymm Before :=
  ⟨fun a _ hab hba => absurd (hab.trans hba) (not_before_self a)⟩

end Row

namespace Table

/-- **`Ordered`** -- every row stands before all later ones. -/
def Ordered (t : Table) : Prop := t.Pairwise Row.Before

/-- Two ordered tables with the same rows are the same table. -/
theorem Ordered.eq_of_mem_iff {t u : Table} (ht : t.Ordered) (hu : u.Ordered)
    (h : ∀ r, r ∈ t ↔ r ∈ u) : t = u :=
  List.Pairwise.eq_of_mem_iff ht hu h

/-! ## Inserting rows -/

variable {t : Table} {new r : Row}

/-- A row that is inserted drives out the row of its key and no other. -/
theorem mem_insert (ordered : t.Ordered) :
    r ∈ t.insert new ↔ r = new ∨ r ∈ t ∧ ¬ new.SameKey r := by
  induction t with
  | nil => simp [insert]
  | cons row rest ih =>
      obtain ⟨hfirst, hrest⟩ := List.pairwise_cons.mp ordered
      rw [insert]
      split
      case isTrue key =>
        -- The first row has the key, so no later one has it.
        have hkeep : r ∈ rest → ¬ new.SameKey r := by
          intro hr
          exact (key.before (hfirst r hr)).not_sameKey
        constructor
        · intro h
          rcases List.mem_cons.mp h with rfl | hr
          · exact Or.inl rfl
          · exact Or.inr ⟨List.mem_cons_of_mem _ hr, hkeep hr⟩
        · rintro (rfl | ⟨hr, hkey⟩)
          · exact List.mem_cons_self
          · rcases List.mem_cons.mp hr with rfl | hr
            · exact absurd key hkey
            · exact List.mem_cons_of_mem _ hr
      case isFalse key =>
        split
        case isTrue before =>
          -- The new row stands before all others, so none has its key.
          have hkeep : r ∈ row :: rest → ¬ new.SameKey r := by
            intro hr
            rcases List.mem_cons.mp hr with rfl | hr
            · exact before.not_sameKey
            · exact (before.trans (hfirst r hr)).not_sameKey
          rw [List.mem_cons]
          constructor
          · rintro (rfl | hr)
            · exact Or.inl rfl
            · exact Or.inr ⟨hr, hkeep hr⟩
          · rintro (rfl | ⟨hr, -⟩)
            · exact Or.inl rfl
            · exact Or.inr hr
        case isFalse before =>
          rw [List.mem_cons, ih hrest, List.mem_cons]
          constructor
          · rintro (rfl | rfl | ⟨hr, hkey⟩)
            · exact Or.inr ⟨Or.inl rfl, key⟩
            · exact Or.inl rfl
            · exact Or.inr ⟨Or.inr hr, hkey⟩
          · rintro (rfl | ⟨rfl | hr, hkey⟩)
            · exact Or.inr (Or.inl rfl)
            · exact Or.inl rfl
            · exact Or.inr (Or.inr ⟨hr, hkey⟩)

theorem ordered_insert (new : Row) (ordered : t.Ordered) : (t.insert new).Ordered := by
  induction t with
  | nil => exact List.pairwise_singleton _ _
  | cons row rest ih =>
      obtain ⟨hfirst, hrest⟩ := List.pairwise_cons.mp ordered
      rw [insert]
      split
      case isTrue key => exact List.pairwise_cons.mpr ⟨fun r hr => key.before (hfirst r hr), hrest⟩
      case isFalse key =>
        split
        case isTrue before =>
          refine List.pairwise_cons.mpr ⟨?_, ordered⟩
          intro r hr
          rcases List.mem_cons.mp hr with rfl | hr
          · exact before
          · exact before.trans (hfirst r hr)
        case isFalse before =>
          refine List.pairwise_cons.mpr ⟨?_, ih hrest⟩
          intro r hr
          rcases (mem_insert hrest).mp hr with rfl | ⟨hr, -⟩
          · exact Row.before_of_not key before
          · exact hfirst r hr

/-- **`ofRows`** -- the table after the rows were inserted one after the other. -/
def ofRows (rows : List Row) : Table := rows.foldl (fun t row => t.insert row) []

theorem ofRows_concat (rows : List Row) (row : Row) :
    ofRows (rows ++ [row]) = (ofRows rows).insert row := by
  rw [ofRows, List.foldl_append]
  rfl

theorem ordered_ofRows (rows : List Row) : (ofRows rows).Ordered := by
  -- Rows are inserted from the first to the last, so the induction is on the last row.
  induction rows using List.reverseRecOn with
  | nil => exact List.Pairwise.nil
  | append_singleton rows row ih =>
      rw [ofRows_concat]
      exact ordered_insert row ih

/-- Where every key has one row, no row is lost. -/
theorem mem_ofRows {rows : List Row}
    (single : ∀ a ∈ rows, ∀ b ∈ rows, a.SameKey b → a = b) :
    r ∈ ofRows rows ↔ r ∈ rows := by
  induction rows using List.reverseRecOn with
  | nil => exact Iff.rfl
  | append_singleton rows row ih =>
      have hrow : row ∈ rows ++ [row] := List.mem_append_right _ List.mem_cons_self
      have hearlier : r ∈ ofRows rows ↔ r ∈ rows := by
        apply ih
        intro a ha b hb
        exact single a (List.mem_append_left _ ha) b (List.mem_append_left _ hb)
      rw [ofRows_concat, mem_insert (ordered_ofRows rows), hearlier, List.mem_append,
        List.mem_singleton]
      constructor
      · rintro (rfl | ⟨hr, -⟩)
        · exact Or.inr rfl
        · exact Or.inl hr
      · rintro (hr | rfl)
        · -- An earlier row of the same key would be driven out, but it is the same row.
          by_cases key : row.SameKey r
          · exact Or.inl (single row hrow r (List.mem_append_left _ hr) key).symm
          · exact Or.inr ⟨hr, key⟩
        · exact Or.inl rfl

/-! ## Sections -/

/-- Written one after the other, the sections are the table. -/
theorem sections_flat (t : Table) : (sections t).flatMap Prod.snd = t := by
  induction t with
  | nil => rfl
  | cons row rest ih =>
      rw [sections]
      split
      case h_1 h =>
        rw [h, List.flatMap_nil] at ih
        rw [List.flatMap_singleton, ← ih]
      case h_2 group rows more h =>
        rw [h, List.flatMap_cons] at ih
        -- The row opens a section or joins the next one; either way it comes first.
        split
        case isTrue => rw [List.flatMap_cons, List.cons_append, ih]
        case isFalse => rw [List.flatMap_cons, List.flatMap_cons, ih, List.singleton_append]

/-- A section has rows, and they are of its group. -/
theorem sections_named (t : Table) :
    ∀ s ∈ sections t, s.2 ≠ [] ∧ ∀ row ∈ s.2, row.group = s.1 := by
  induction t with
  | nil => exact fun s hs => absurd hs nofun
  | cons row rest ih =>
      have hnew : [row] ≠ [] ∧ ∀ other ∈ [row], other.group = row.group := by simp
      rw [sections]
      split
      case h_1 h =>
        intro s hs
        obtain rfl := List.mem_singleton.mp hs
        exact hnew
      case h_2 group rows more h =>
        rw [h] at ih
        obtain ⟨hfirst, hmore⟩ := List.forall_mem_cons.mp ih
        split
        case isTrue hgroup =>
          refine List.forall_mem_cons.mpr ⟨⟨List.cons_ne_nil _ _, ?_⟩, hmore⟩
          intro other hother
          rcases List.mem_cons.mp hother with rfl | hother
          · exact hgroup
          · exact hfirst.2 other hother
        case isFalse => exact List.forall_mem_cons.mpr ⟨hnew, ih⟩

theorem mem_of_mem_section {s : String × List Row} (hs : s ∈ sections t) (hr : r ∈ s.2) :
    r ∈ t := by
  rw [← sections_flat t]
  exact List.mem_flatMap.mpr ⟨s, hs, hr⟩

/-- In an ordered table no group has two sections, and the groups increase. -/
theorem sections_increase (ordered : t.Ordered) :
    ((sections t).map Prod.fst).Pairwise (· < ·) := by
  induction t with
  | nil => exact List.Pairwise.nil
  | cons row rest ih =>
      obtain ⟨hfirst, hrest⟩ := List.pairwise_cons.mp ordered
      have hih := ih hrest
      -- A later section has a row, which stands after this one.
      have hlater : ∀ s ∈ sections rest, row.group < s.1 ∨ row.group = s.1 := by
        intro s hs
        obtain ⟨hne, hnamed⟩ := sections_named rest s hs
        obtain ⟨other, hother⟩ := List.exists_mem_of_ne_nil s.2 hne
        rw [← hnamed other hother]
        rcases hfirst other (mem_of_mem_section hs hother) with hlt | ⟨heq, -⟩
        · exact Or.inl hlt
        · exact Or.inr heq
      rw [sections]
      split
      case h_1 => exact List.pairwise_singleton _ _
      case h_2 group rows more h =>
        rw [h] at hih hlater
        split
        case isTrue => exact hih
        case isFalse hne =>
          have hgroup : row.group < group :=
            (hlater _ List.mem_cons_self).resolve_right hne
          refine List.pairwise_cons.mpr ⟨?_, hih⟩
          intro g hg
          rcases List.mem_cons.mp hg with rfl | hg
          · exact hgroup
          · exact List.lt_trans hgroup ((List.pairwise_cons.mp hih).1 g hg)

/-- The functions of a section increase. -/
theorem section_functions_increase (ordered : t.Ordered) {s : String × List Row}
    (hs : s ∈ sections t) : (s.2.map Row.function).Pairwise (· < ·) := by
  have hsub : List.Sublist s.2 t := by
    have := (List.singleton_sublist.mpr hs).flatMap Prod.snd
    rwa [sections_flat, List.flatMap_singleton] at this
  rw [List.pairwise_map]
  refine (ordered.sublist hsub).imp_of_mem ?_
  intro a b ha hb hab
  have hnamed := (sections_named t s hs).2
  rcases hab with hlt | ⟨-, hlt⟩
  · rw [hnamed a ha, hnamed b hb] at hlt
    exact absurd hlt (List.lt_irrefl _)
  · exact hlt

end Table

end SharedCells.Report
