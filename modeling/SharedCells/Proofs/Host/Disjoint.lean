/-
# SharedCells.Proofs.Host.Disjoint -- hosts that stay out of each other's bytes

Two hosts work on one memory, and their steps interleave in any way. As long as no byte is covered
by views of both, neither can tell that the other is there: each gets, step by step, the outcomes
that it gets when it works alone on the memory as it was at first. The memory afterwards does not
depend on the interleaving either.

The argument compares two memories on a set of bytes. A step does the same in memories that agree on
the bytes of its view, and they go on agreeing there; and it leaves all other bytes. So the memory
of an interleaving and that of a host working alone agree, all the time, on the bytes of that host.
Neither null addresses nor alignment matter here: a view is refused by its address, and no step
moves the memory.

* `Memory.Agree.view`, `Memory.view_agree` : one step, of the same host and of the other.
* `Memory.Agree.viewAll_own` : an interleaving beside one host's own run.
* `Memory.viewAll_apart` : both hosts, and the memory they leave.
-/

import Mathlib.Data.List.Basic
import SharedCells.Proofs.Host.Views

namespace SharedCells

/-! ## Interleavings -/

/-- **`Side`** -- which of two hosts. -/
inductive Side where
  | first
  | second
  deriving DecidableEq

/-- **`own`** -- what belongs to one side, in its order. -/
def Side.own {α : Type} (side : Side) (mixed : List (Side × α)) : List α :=
  (mixed.filter fun entry => entry.1 = side).map Prod.snd

namespace Side

variable {α : Type} {side other : Side} {entry : α} {mixed : List (Side × α)}

theorem own_cons_self : side.own ((side, entry) :: mixed) = entry :: side.own mixed := by
  simp [own]

theorem own_cons_other (h : other ≠ side) :
    side.own ((other, entry) :: mixed) = side.own mixed := by
  simp [own, h]

theorem mem_own_iff : entry ∈ side.own mixed ↔ (side, entry) ∈ mixed := by
  simp [own]

/-- **`Interleaves`** -- the two lists taken together, the entries of each in their order. -/
structure Interleaves (mixed : List (Side × α)) (entries entries' : List α) : Prop where
  first : first.own mixed = entries
  second : second.own mixed = entries'

/-- The entries of one side after those of the other. -/
def inTurn (entries entries' : List α) : List (Side × α) :=
  entries.map (first, ·) ++ entries'.map (second, ·)

theorem interleaves_inTurn (entries entries' : List α) :
    Interleaves (inTurn entries entries') entries entries' := by
  constructor <;> simp [inTurn, own, List.filter_map, Function.comp_def]

theorem map_snd_inTurn (entries entries' : List α) :
    (inTurn entries entries').map Prod.snd = entries ++ entries' := by
  simp [inTurn, Function.comp_def]

end Side

/-! ## The bytes of a view -/

namespace ViewStep

/-- **`Covers`** -- the byte at a place belongs to the step's view. -/
def Covers (s : ViewStep) (i : Nat) : Prop := s.offset ≤ i ∧ i < s.offset + s.width.bytes

/-- **`Covered`** -- the byte belongs to a view of one of the steps. -/
def Covered (steps : List ViewStep) (i : Nat) : Prop := ∃ s ∈ steps, s.Covers i

end ViewStep

namespace Memory

/-- **`Agree P m m'`** -- the memories lie at the same place, are of the same length, and hold the
same bytes wherever `P` says. -/
structure Agree (P : Nat → Prop) (m m' : Memory) : Prop where
  base : m'.base = m.base
  length : m'.bytes.length = m.bytes.length
  bytes : ∀ i, P i → m'.bytes[i]? = m.bytes[i]?

variable {P : Nat → Prop} {m m' m'' : Memory} {s : ViewStep} {steps : List ViewStep}

theorem Agree.refl (P : Nat → Prop) (m : Memory) : Agree P m m := ⟨rfl, rfl, fun _ _ => rfl⟩

theorem Agree.symm (h : Agree P m m') : Agree P m' m :=
  ⟨h.base.symm, h.length.symm, fun i hi => (h.bytes i hi).symm⟩

theorem Agree.trans (h : Agree P m m') (h' : Agree P m' m'') : Agree P m m'' :=
  ⟨h'.base.trans h.base, h'.length.trans h.length,
    fun i hi => (h'.bytes i hi).trans (h.bytes i hi)⟩

theorem Agree.inBounds {w : Width} {offset : Nat} (h : Agree P m m')
    (inBounds : m.InBounds w offset) : m'.InBounds w offset := by
  rw [InBounds, h.length]
  exact inBounds

/-- Memories that agree on the bytes of a view hold the same cell there. -/
theorem Agree.cellAt (h : Agree P m m') (inside : ∀ i, s.Covers i → P i) :
    m'.cellAt s.width s.offset = m.cellAt s.width s.offset := by
  have hwindow : (m'.bytes.drop s.offset).take s.width.bytes =
      (m.bytes.drop s.offset).take s.width.bytes := by
    refine List.ext_getElem? fun i => ?_
    rw [List.getElem?_take, List.getElem?_take, List.getElem?_drop, List.getElem?_drop]
    split
    · exact h.bytes (s.offset + i) (inside _ ⟨by omega, by omega⟩)
    · rfl
  rw [Memory.cellAt, Memory.cellAt, addressOf, addressOf, h.base, valueAt, valueAt, hwindow]

/-- Writing a value into both memories keeps them in agreement. -/
theorem Agree.setValueAt {w : Width} {offset : Nat} (h : Agree P m m')
    (inBounds : m.InBounds w offset) (v : Value w) :
    Agree P (m.setValueAt offset v) (m'.setValueAt offset v) := by
  have outside := setValueAt_sameOutside inBounds v
  have outside' := setValueAt_sameOutside (h.inBounds inBounds) v
  refine ⟨h.base, by rw [outside.length, outside'.length, h.length], fun i hi => ?_⟩
  by_cases hcovered : offset ≤ i ∧ i < offset + w.bytes
  · obtain ⟨k, rfl⟩ : ∃ k, i = offset + k := ⟨i - offset, by omega⟩
    have hk : k < w.bytes := by omega
    rw [← getElem?_window hk, ← getElem?_window hk, window_setValueAt inBounds,
      window_setValueAt (h.inBounds inBounds)]
  · rw [outside.bytes i (by omega), outside'.bytes i (by omega)]
    exact h.bytes i hi

/-! ## One step -/

/-- **`Agree.view`** -- in memories that agree on the bytes of its view a step has one outcome, and
they go on agreeing. -/
theorem Agree.view (h : Agree P m m') (inBounds : m.InBounds s.width s.offset)
    (inside : ∀ i, s.Covers i → P i) :
    (m'.view s).1 = (m.view s).1 ∧ Agree P (m.view s).2 (m'.view s).2 := by
  have haddress : m'.addressOf s.offset = m.addressOf s.offset := by
    rw [addressOf, addressOf, h.base]
  by_cases accepted : s.checked = true → Refusal.of? s.width (m.addressOf s.offset) = none
  · have accepted' := accepted
    rw [← haddress] at accepted'
    rw [view_accepted accepted, view_accepted accepted', h.cellAt inside, haddress]
    exact ⟨rfl, h.setValueAt inBounds _⟩
  · obtain ⟨checked, hrefused⟩ := Classical.not_imp.mp accepted
    obtain ⟨refusal, hrefusal⟩ := Option.ne_none_iff_exists'.mp hrefused
    have hrefusal' := hrefusal
    rw [← haddress] at hrefusal'
    rw [view_refused checked hrefusal, view_refused checked hrefusal']
    exact ⟨rfl, h⟩

/-- **`view_agree`** -- a step leaves the bytes outside of its view. -/
theorem view_agree (inBounds : m.InBounds s.width s.offset) (apart : ∀ i, P i → ¬ s.Covers i) :
    Agree P m (m.view s).2 := by
  have frame := view_frame inBounds
  refine ⟨frame.base, frame.length, fun i hi => frame.bytes i ?_⟩
  have hout : ¬ (s.offset ≤ i ∧ i < s.offset + s.width.bytes) := apart i hi
  omega

/-! ## Whole runs -/

theorem viewAll_cons :
    m.viewAll (s :: steps) =
      ((m.view s).1 :: ((m.view s).2.viewAll steps).1, ((m.view s).2.viewAll steps).2) :=
  rfl

theorem viewAll_agree (inBounds : ∀ s ∈ steps, m.InBounds s.width s.offset)
    (apart : ∀ s ∈ steps, ∀ i, P i → ¬ s.Covers i) : Agree P m (m.viewAll steps).2 := by
  induction steps generalizing m with
  | nil => exact .refl P m
  | cons s steps ih =>
      obtain ⟨hfirst, hlater⟩ := List.forall_mem_cons.mp inBounds
      obtain ⟨hapart, hrest⟩ := List.forall_mem_cons.mp apart
      have hstep : Agree P m (m.view s).2 := view_agree hfirst hapart
      exact hstep.trans (ih (fun s' hs' => hstep.inBounds (hlater s' hs')) hrest)

/-- **`Agree.viewAll_own`** -- an interleaving in one memory, and the steps of one side alone in
another: that side's outcomes are the same, and the memories go on agreeing where its views lie. -/
theorem Agree.viewAll_own {side : Side} {mixed : List (Side × ViewStep)} (h : Agree P m m')
    (inBounds : ∀ entry ∈ mixed, m.InBounds entry.2.width entry.2.offset)
    (inside : ∀ entry ∈ mixed, entry.1 = side → ∀ i, entry.2.Covers i → P i)
    (apart : ∀ entry ∈ mixed, entry.1 ≠ side → ∀ i, P i → ¬ entry.2.Covers i) :
    let run := m.viewAll (mixed.map Prod.snd)
    let alone := m'.viewAll (side.own mixed)
    side.own ((mixed.map Prod.fst).zip run.1) = alone.1 ∧ Agree P run.2 alone.2 := by
  induction mixed generalizing m m' with
  | nil => exact ⟨rfl, h⟩
  | cons entry mixed ih =>
      obtain ⟨mover, s⟩ := entry
      obtain ⟨hbounds, hrestBounds⟩ := List.forall_mem_cons.mp inBounds
      obtain ⟨hinside, hrestInside⟩ := List.forall_mem_cons.mp inside
      obtain ⟨hapart, hrestApart⟩ := List.forall_mem_cons.mp apart
      have hlater : ∀ entry ∈ mixed, (m.view s).2.InBounds entry.2.width entry.2.offset :=
        fun entry hentry => (view_frame hbounds).inBounds_iff.mpr (hrestBounds entry hentry)
      simp only [List.map_cons, viewAll_cons, List.zip_cons_cons]
      by_cases hmover : mover = side
      · subst hmover
        obtain ⟨houtcome, hagree⟩ := h.view hbounds (hinside rfl)
        obtain ⟨houtcomes, hlast⟩ := ih hagree hlater hrestInside hrestApart
        rw [Side.own_cons_self, Side.own_cons_self, viewAll_cons, houtcome, houtcomes]
        exact ⟨rfl, hlast⟩
      · have hagree : Agree P (m.view s).2 m' := (view_agree hbounds (hapart hmover)).symm.trans h
        rw [Side.own_cons_other hmover, Side.own_cons_other hmover]
        exact ih hagree hlater hrestInside hrestApart

/-- An interleaving beside the run of one side, if no view of the other side meets one of its. -/
theorem viewAll_side (side : Side) {mixed : List (Side × ViewStep)}
    (inBounds : ∀ entry ∈ mixed, m.InBounds entry.2.width entry.2.offset)
    (apart : ∀ entry ∈ mixed, entry.1 ≠ side →
      ∀ i, ViewStep.Covered (side.own mixed) i → ¬ entry.2.Covers i) :
    let run := m.viewAll (mixed.map Prod.snd)
    let alone := m.viewAll (side.own mixed)
    side.own ((mixed.map Prod.fst).zip run.1) = alone.1 ∧
      Agree (ViewStep.Covered (side.own mixed)) run.2 alone.2 := by
  refine (Agree.refl _ m).viewAll_own inBounds ?_ apart
  rintro ⟨mover, s⟩ hs rfl i hi
  exact ⟨s, Side.mem_own_iff.mpr hs, hi⟩

/-- What an interleaving of two hosts leaves in the bytes of either, and elsewhere. -/
structure LeavesEach (m : Memory) (steps steps' : List ViewStep) (last : Memory) : Prop where
  first : Agree (ViewStep.Covered steps) last (m.viewAll steps).2
  second : Agree (ViewStep.Covered steps') last (m.viewAll steps').2
  rest : Agree (fun i => ¬ ViewStep.Covered steps i ∧ ¬ ViewStep.Covered steps' i) last m

/-- No byte is left open by that. -/
theorem LeavesEach.unique {steps' : List ViewStep} {last last' : Memory}
    (h : LeavesEach m steps steps' last) (h' : LeavesEach m steps steps' last') : last' = last := by
  have hbytes : last'.bytes = last.bytes := by
    refine List.ext_getElem? fun i => ?_
    by_cases hfirst : ViewStep.Covered steps i
    · exact (h'.first.bytes i hfirst).symm.trans (h.first.bytes i hfirst)
    by_cases hsecond : ViewStep.Covered steps' i
    · exact (h'.second.bytes i hsecond).symm.trans (h.second.bytes i hsecond)
    · exact (h'.rest.bytes i ⟨hfirst, hsecond⟩).symm.trans (h.rest.bytes i ⟨hfirst, hsecond⟩)
  cases last
  cases last'
  rw [Memory.mk.injEq]
  exact ⟨h'.rest.base.symm.trans h.rest.base, hbytes⟩

variable {mixed : List (Side × ViewStep)} {steps' : List ViewStep}

/-- Both sides of an interleaving at once. -/
theorem viewAll_interleaved (interleaves : Side.Interleaves mixed steps steps')
    (inBounds : ∀ s ∈ steps ++ steps', m.InBounds s.width s.offset)
    (apart : ∀ s ∈ steps, ∀ s' ∈ steps', ∀ i, s.Covers i → ¬ s'.Covers i) :
    let run := m.viewAll (mixed.map Prod.snd)
    let outcomes := (mixed.map Prod.fst).zip run.1
    Side.first.own outcomes = (m.viewAll steps).1 ∧
      Side.second.own outcomes = (m.viewAll steps').1 ∧ LeavesEach m steps steps' run.2 := by
  intro run outcomes
  obtain ⟨rfl, rfl⟩ := interleaves
  have hbounds : ∀ entry ∈ mixed, m.InBounds entry.2.width entry.2.offset := by
    rintro ⟨side, s⟩ hs
    refine inBounds s (List.mem_append.mpr ?_)
    cases side with
    | first => exact Or.inl (Side.mem_own_iff.mpr hs)
    | second => exact Or.inr (Side.mem_own_iff.mpr hs)
  obtain ⟨hfirst, hleft⟩ := viewAll_side .first hbounds fun ⟨side, s'⟩ hs' hside i hi => by
    obtain ⟨s, hs, hcovers⟩ := hi
    cases side with
    | first => exact absurd rfl hside
    | second => exact apart s hs s' (Side.mem_own_iff.mpr hs') i hcovers
  obtain ⟨hsecond, hright⟩ := viewAll_side .second hbounds fun ⟨side, s⟩ hs hside i hi => by
    obtain ⟨s', hs', hcovers⟩ := hi
    cases side with
    | first => exact fun h => apart s (Side.mem_own_iff.mpr hs) s' hs' i h hcovers
    | second => exact absurd rfl hside
  refine ⟨hfirst, hsecond, hleft, hright, (viewAll_agree ?_ ?_).symm⟩
  · intro s hs
    obtain ⟨entry, hentry, rfl⟩ := List.mem_map.mp hs
    exact hbounds entry hentry
  · rintro s hs i ⟨hnone, hnone'⟩ hcovers
    obtain ⟨⟨side, s⟩, hentry, rfl⟩ := List.mem_map.mp hs
    cases side with
    | first => exact hnone ⟨s, Side.mem_own_iff.mpr hentry, hcovers⟩
    | second => exact hnone' ⟨s, Side.mem_own_iff.mpr hentry, hcovers⟩

/-- **`viewAll_apart`** -- two hosts whose views cover no byte in common: in every interleaving each
gets the outcomes that it gets alone; each leaves in its bytes what it leaves there alone, and all
other bytes are as before; so the memory afterwards is that of one host after the other. -/
theorem viewAll_apart (m : Memory) (steps steps' : List ViewStep)
    (inBounds : ∀ s ∈ steps ++ steps', m.InBounds s.width s.offset)
    (apart : ∀ s ∈ steps, ∀ s' ∈ steps', ∀ i, s.Covers i → ¬ s'.Covers i)
    (mixed : List (Side × ViewStep)) (interleaves : Side.Interleaves mixed steps steps') :
    let run := m.viewAll (mixed.map Prod.snd)
    let outcomes := (mixed.map Prod.fst).zip run.1
    Side.first.own outcomes = (m.viewAll steps).1 ∧
      Side.second.own outcomes = (m.viewAll steps').1 ∧
      LeavesEach m steps steps' run.2 ∧ run.2 = (m.viewAll (steps ++ steps')).2 := by
  intro run outcomes
  obtain ⟨hfirst, hsecond, hleaves⟩ := viewAll_interleaved interleaves inBounds apart
  -- One host after the other is an interleaving as well.
  obtain ⟨-, -, hleaves'⟩ :=
    viewAll_interleaved (Side.interleaves_inTurn steps steps') inBounds apart
  rw [Side.map_snd_inTurn] at hleaves'
  exact ⟨hfirst, hsecond, hleaves, hleaves'.unique hleaves⟩

/-- A word that wraps around, right before a byte that borrows, right before a byte that is swapped
in vain and then tried as part of a crooked word. -/
theorem viewAll_apart_adjacent :
    let m : Memory := ⟨65536, List.replicate 8 255 ++ List.replicate 16 0⟩
    let word : ViewStep := ⟨.word, 0, true, .fetchAdd 1, false⟩
    let vain : ViewStep := ⟨.byte, 9, false, .byteMethod (.trySwapAcquire 3 4), false⟩
    let crooked : ViewStep := ⟨.word, 9, true, .write 5, false⟩
    let byte : ViewStep := ⟨.byte, 8, true, .fetchSub 1, false⟩
    let steps := [word, vain, crooked]
    let steps' := [byte, byte]
    let mixed : List (Side × ViewStep) :=
      [(.first, word), (.second, byte), (.first, vain), (.second, byte), (.first, crooked)]
    ((∀ s ∈ steps ++ steps', m.InBounds s.width s.offset) ∧
        (∀ s ∈ steps, ∀ s' ∈ steps', ∀ i, s.Covers i → ¬ s'.Covers i) ∧
        Side.Interleaves mixed steps steps') ∧
      (m.viewAll (mixed.map Prod.snd)).2 = (m.viewAll (steps ++ steps')).2 ∧
      (m.viewAll (mixed.map Prod.snd)).2.bytes =
        List.replicate 8 0 ++ 254 :: List.replicate 15 0 := by
  intro m word vain crooked byte steps steps' mixed
  have inBounds : ∀ s ∈ steps ++ steps', m.InBounds s.width s.offset := by decide
  have apart : ∀ s ∈ steps, ∀ s' ∈ steps', ∀ i, s.Covers i → ¬ s'.Covers i := by
    intro s hs s' hs' i
    obtain rfl : s' = byte := by simpa [steps'] using hs'
    rcases (by simpa [steps] using hs) with rfl | rfl | rfl <;>
      simp only [ViewStep.Covers, Width.bytes, word, vain, crooked, byte] <;> omega
  have interleaves : Side.Interleaves mixed steps steps' := ⟨rfl, rfl⟩
  obtain ⟨-, -, -, hlast⟩ := viewAll_apart m steps steps' inBounds apart mixed interleaves
  exact ⟨⟨inBounds, apart, interleaves⟩, hlast, by decide⟩

end Memory

end SharedCells
