/-
# SharedCells.Proofs.Concurrent.Winners -- who wins an election

Any number of callers try once, in any order, to swap one flag from the same expected value to the
same new one. If the flag does not hold that value at first, nobody wins. If the swap changes
nothing, everybody does. In every other case exactly one caller wins, and this is what mutual
exclusion is built on.

The invariant needs no history. A swap succeeds only on a flag that holds the expected value, and
leaves the new one; so the flag says whether anybody has won. A caller is refused only by a flag
that holds another value, and such a flag never changes again; so all that are refused find the
same.

* `Election.step_moves` : what one move can do.
* `Election.step_elects`, `Election.run_elects` : the invariant, for a move and for a schedule.
* `Election.winners_of_election` : the winners, the flag, and what every `expected` holds.
-/

import Mathlib.Algebra.Group.Nat.Defs
import Mathlib.Data.List.Basic
import SharedCells.Concurrent.Election

namespace SharedCells

/-! ## Lists with one entry replaced -/

/-- Replacing an entry moves a count by what the two entries count for. -/
theorem countP_set_add {α : Type} {p : α → Bool} {l : List α} {i : Nat} {a b : α}
    (here : l[i]? = some a) :
    (l.set i b).countP p + (if p a then 1 else 0) = l.countP p + (if p b then 1 else 0) := by
  obtain ⟨hi, rfl⟩ := List.getElem?_eq_some_iff.mp here
  have hcounted : p l[i] = true → 0 < l.countP p := fun h =>
    List.countP_pos_iff.mpr ⟨l[i], List.getElem_mem hi, h⟩
  rw [List.countP_set hi]
  by_cases h : p l[i] = true
  · have hpos := hcounted h
    simp only [h, if_true]
    omega
  · simp [h]

/-- A list of two values, one of them once. -/
theorem eq_set_of_countP_eq_one {α : Type} {p : α → Bool} {l : List α} {a b : α}
    (once : l.countP p = 1) (ha : ∀ x ∈ l, p x = true → x = a)
    (hb : ∀ x ∈ l, p x = false → x = b) :
    ∃ i < l.length, l = (List.replicate l.length b).set i a := by
  induction l with
  | nil => simp at once
  | cons x l ih =>
      obtain ⟨hax, hal⟩ := List.forall_mem_cons.mp ha
      obtain ⟨hbx, hbl⟩ := List.forall_mem_cons.mp hb
      cases hx : p x with
      | true =>
          have hnone : l.countP p = 0 := by simpa [hx] using once
          have hrest : l = List.replicate l.length b := by
            refine List.eq_replicate_iff.mpr ⟨rfl, fun y hy => hbl y hy ?_⟩
            simpa using List.countP_eq_zero.mp hnone y hy
          refine ⟨0, by simp, ?_⟩
          rw [List.length_cons, List.replicate_succ, List.set_cons_zero, ← hrest, hax hx]
      | false =>
          obtain ⟨i, hi, hl⟩ := ih (by simpa [hx] using once) hal hbl
          refine ⟨i + 1, by simpa using hi, ?_⟩
          rw [List.length_cons, List.replicate_succ, List.set_cons_succ, ← hl, hbx hx]

/-- Where the other value stands does not matter. -/
theorem replicate_set_perm {α : Type} {n i : Nat} (hi : i < n) (a b : α) :
    ((List.replicate n b).set i a).Perm (a :: List.replicate (n - 1) b) := by
  have hlength : i < (List.replicate n b).length := by simpa using hi
  rw [List.set_eq_take_append_cons_drop, if_pos hlength, List.take_replicate, List.drop_replicate]
  refine List.perm_middle.trans (List.Perm.of_eq ?_)
  rw [List.replicate_append_replicate]
  congr 2
  omega

namespace Election

variable {initial expected new : Value .byte} {n : Nat} {s : Election} {i : Nat}

/-! ## What a move can do -/

/-- **`Moves new s i s'`** -- the outcomes of the next cell operation of a caller. -/
inductive Moves (new : Value .byte) (s : Election) (i : Nat) : Election → Prop
  | rests (finished : ∀ c, s.callers[i]? = some c → c.finished = true) : Moves new s i s
  | elects (expected : Value .byte) (here : s.callers[i]? = some ⟨.waiting, expected⟩)
      (found : s.flag.value = expected) :
      Moves new s i ⟨⟨s.flag.address, new⟩, s.winners, s.callers.set i ⟨.elected, expected⟩⟩
  | refuses (expected : Value .byte) (here : s.callers[i]? = some ⟨.waiting, expected⟩)
      (found : s.flag.value ≠ expected) :
      Moves new s i ⟨s.flag, s.winners, s.callers.set i ⟨.refused, s.flag.value⟩⟩
  | counts (expected : Value .byte) (here : s.callers[i]? = some ⟨.elected, expected⟩) :
      Moves new s i ⟨s.flag, ⟨s.winners.address, s.winners.value + 1⟩,
        s.callers.set i ⟨.counted, expected⟩⟩

theorem step_moves (new : Value .byte) (s : Election) (i : Nat) : Moves new s i (s.step new i) := by
  cases here : s.callers[i]? with
  | none =>
      rw [step, here]
      exact .rests fun c hc => absurd (here.symm.trans hc) nofun
  | some caller =>
      obtain ⟨stage, expected⟩ := caller
      cases stage with
      | waiting =>
          simp only [step, here, ByteCell.trySwapAcquire, Cell.trySwap_eq,
            Access.exchanges_strong, beq_iff_eq]
          by_cases found : s.flag.value = expected
          · simp only [found, if_true]
            exact .elects expected here found
          · simp only [found, if_false]
            exact .refuses expected here found
      | elected =>
          simp only [step, here, Cell.fetchAdd_eq]
          exact .counts expected here
      | counted | refused =>
          simp only [step, here]
          refine .rests fun c hc => ?_
          obtain rfl := Option.some.inj (here.symm.trans hc)
          rfl

/-! ## The invariant -/

/-- **`wins`** -- how many swaps have succeeded. -/
def wins (s : Election) : Nat := s.callers.countP Caller.won

/-- How many winners have added themselves to the count. -/
def counted (s : Election) : Nat := s.callers.countP fun c => c.stage = .counted

/-- **`Elects`** -- what holds of an election at any moment. -/
structure Elects (initial expected new : Value .byte) (n : Nat) (s : Election) : Prop where
  size : s.callers.length = n
  /-- The flag says whether anybody has won. -/
  flag : s.flag.value = if s.wins = 0 then initial else new
  fresh : 0 < s.wins → initial = expected
  again : 1 < s.wins → expected = new
  kept : ∀ c ∈ s.callers, c.stage ≠ .refused → c.expected = expected
  /-- A flag that refuses a caller stays as it is. -/
  found : ∀ c ∈ s.callers, c.stage = .refused → c.expected = s.flag.value ∧ s.flag.value ≠ expected
  tally : s.winners.value = BitVec.ofNat _ s.counted

theorem start_elects (initial expected new : Value .byte) (n : Nat) :
    Elects initial expected new n (start initial expected n) := by
  have hcallers : ∀ c ∈ (start initial expected n).callers, c = ⟨.waiting, expected⟩ :=
    fun c hc => List.eq_of_mem_replicate hc
  have hwins : (start initial expected n).wins = 0 :=
    List.countP_eq_zero.mpr fun c hc => by simp [hcallers c hc, Caller.won]
  have hcounted : (start initial expected n).counted = 0 :=
    List.countP_eq_zero.mpr fun c hc => by simp [hcallers c hc]
  refine ⟨by simp [start], by rw [hwins]; rfl, by simp [hwins], by simp [hwins], ?_, ?_, ?_⟩
  · intro c hc _
    rw [hcallers c hc]
  · intro c hc hstage
    rw [hcallers c hc] at hstage
    exact absurd hstage nofun
  · rw [hcounted]
    rfl

/-- What is true of all callers but one, and of the one that takes its place. -/
theorem forall_mem_set {P : Caller → Prop} {callers : List Caller} {c : Caller}
    (hold : ∀ x ∈ callers, P x) (hnew : P c) : ∀ x ∈ callers.set i c, P x := by
  intro x hx
  rcases List.mem_or_eq_of_mem_set hx with hx | rfl
  · exact hold x hx
  · exact hnew

/-- One caller's swap moves the number of wins. -/
theorem wins_set {c : Caller} {flag : ByteCell} {winners : WordCell}
    (here : s.callers[i]? = some c) (c' : Caller) :
    wins ⟨flag, winners, s.callers.set i c'⟩ + (if c.won then 1 else 0) =
      s.wins + (if c'.won then 1 else 0) :=
  countP_set_add here

theorem counted_set {c : Caller} {flag : ByteCell} {winners : WordCell}
    (here : s.callers[i]? = some c) (c' : Caller) :
    counted ⟨flag, winners, s.callers.set i c'⟩ + (if c.stage = .counted then 1 else 0) =
      s.counted + (if c'.stage = .counted then 1 else 0) := by
  simpa [counted] using countP_set_add (p := fun c => c.stage = .counted) (b := c') here

/-- **`step_elects`** -- a move keeps the invariant. -/
theorem step_elects (h : Elects initial expected new n s) (i : Nat) :
    Elects initial expected new n (s.step new i) := by
  have hmoves := step_moves new s i
  generalize s.step new i = s' at hmoves ⊢
  have hsize (c : Caller) : (s.callers.set i c).length = n := by rw [List.length_set, h.size]
  have hflag := h.flag
  cases hmoves with
  | rests => exact h
  | elects e here found =>
      obtain rfl : e = expected := h.kept _ (List.mem_of_getElem? here) nofun
      have hwins : wins ⟨⟨s.flag.address, new⟩, s.winners, s.callers.set i ⟨.elected, e⟩⟩ =
          s.wins + 1 := by
        simpa [Caller.won] using wins_set here ⟨.elected, e⟩
      have hcounted : counted ⟨⟨s.flag.address, new⟩, s.winners, s.callers.set i ⟨.elected, e⟩⟩ =
          s.counted := by
        simpa using counted_set here ⟨.elected, e⟩
      -- The flag held what was expected: the initial value, or the new one that is the same.
      rw [found] at hflag
      refine ⟨hsize _, ?_, ?_, ?_, forall_mem_set h.kept fun _ => rfl, ?_, ?_⟩
      · rw [hwins, if_neg (Nat.succ_ne_zero _)]
      · intro _
        by_cases hnone : s.wins = 0
        · rw [if_pos hnone] at hflag
          exact hflag.symm
        · exact h.fresh (by omega)
      · intro hmore
        rw [hwins] at hmore
        rw [if_neg (by omega)] at hflag
        exact hflag
      · exact forall_mem_set (fun c hc hstage => absurd found (h.found c hc hstage).2) nofun
      · rw [hcounted]
        exact h.tally
  | refuses e here found =>
      obtain rfl : e = expected := h.kept _ (List.mem_of_getElem? here) nofun
      have hwins : wins ⟨s.flag, s.winners, s.callers.set i ⟨.refused, s.flag.value⟩⟩ = s.wins := by
        simpa [Caller.won] using wins_set here ⟨.refused, s.flag.value⟩
      have hcounted : counted ⟨s.flag, s.winners, s.callers.set i ⟨.refused, s.flag.value⟩⟩ =
          s.counted := by
        simpa using counted_set here ⟨.refused, s.flag.value⟩
      refine ⟨hsize _, ?_, ?_, ?_, forall_mem_set h.kept fun hstage => absurd rfl hstage,
        forall_mem_set h.found fun _ => ⟨rfl, found⟩, ?_⟩
      · rw [hwins]
        exact hflag
      · rw [hwins]
        exact h.fresh
      · rw [hwins]
        exact h.again
      · rw [hcounted]
        exact h.tally
  | counts e here =>
      obtain rfl : e = expected := h.kept _ (List.mem_of_getElem? here) nofun
      have hwins : wins ⟨s.flag, ⟨s.winners.address, s.winners.value + 1⟩,
          s.callers.set i ⟨.counted, e⟩⟩ = s.wins := by
        simpa [Caller.won] using wins_set here ⟨.counted, e⟩
      have hcounted : counted ⟨s.flag, ⟨s.winners.address, s.winners.value + 1⟩,
          s.callers.set i ⟨.counted, e⟩⟩ = s.counted + 1 := by
        simpa using counted_set here ⟨.counted, e⟩
      refine ⟨hsize _, ?_, ?_, ?_, forall_mem_set h.kept fun _ => rfl,
        forall_mem_set h.found nofun, ?_⟩
      · rw [hwins]
        exact hflag
      · rw [hwins]
        exact h.fresh
      · rw [hwins]
        exact h.again
      · rw [hcounted, h.tally, BitVec.ofNat_add]
        rfl

/-- **`run_elects`** -- so does every schedule. -/
theorem run_elects (h : Elects initial expected new n s) (schedule : List Nat) :
    Elects initial expected new n (s.run new schedule) := by
  induction schedule generalizing s with
  | nil => exact h
  | cons i schedule ih => exact ih (step_elects h i)

/-! ## Every caller comes to its end -/

/-- How many moves a caller has still to make, at most. -/
def movesLeft (s : Election) (i : Nat) : Nat :=
  match s.callers[i]? with
  | some ⟨.waiting, _⟩ => 2
  | some ⟨.elected, _⟩ => 1
  | _ => 0

/-- A caller's move brings it nearer to its end, and no caller is put back. -/
theorem step_movesLeft (new : Value .byte) (s : Election) (i j : Nat) :
    (s.step new i).movesLeft j ≤ s.movesLeft j - if i = j then 1 else 0 := by
  have hmoves := step_moves new s i
  generalize s.step new i = s' at hmoves ⊢
  by_cases hij : i = j
  · subst hij
    rw [if_pos rfl]
    cases hmoves with
    | rests finished =>
        simp only [movesLeft]
        split
        case h_1 hc => exact absurd (finished _ hc) nofun
        case h_2 hc => exact absurd (finished _ hc) nofun
        case h_3 => exact Nat.zero_le _
    | elects e here | refuses e here | counts e here =>
        have hi := (List.getElem?_eq_some_iff.mp here).1
        simp [movesLeft, here, List.getElem?_set_self hi]
  · cases hmoves with
    | rests => simp [hij]
    | elects | refuses | counts => simp [movesLeft, hij, List.getElem?_set_ne]

theorem run_movesLeft (new : Value .byte) (s : Election) (schedule : List Nat) (j : Nat) :
    (s.run new schedule).movesLeft j ≤ s.movesLeft j - schedule.count j := by
  induction schedule generalizing s with
  | nil => simp [run]
  | cons i schedule ih =>
      have hrun : (s.run new (i :: schedule)).movesLeft j ≤
          (s.step new i).movesLeft j - schedule.count j := ih (s.step new i)
      have hstep := step_movesLeft new s i j
      rw [List.count_cons]
      simp only [beq_iff_eq]
      omega

/-- A schedule in which every caller has two moves is long enough. -/
theorem finished_of_two_moves {schedule : List Nat} (enough : ∀ i < n, 2 ≤ schedule.count i) :
    ((start initial expected n).run new schedule).finished = true := by
  have hsize := (run_elects (start_elects initial expected new n) schedule).size
  have hleft := run_movesLeft new (start initial expected n) schedule
  generalize (start initial expected n).run new schedule = s at hsize hleft ⊢
  refine List.all_eq_true.mpr fun c hc => ?_
  obtain ⟨i, here⟩ := List.mem_iff_getElem?.mp hc
  have hi : i < n := hsize ▸ (List.getElem?_eq_some_iff.mp here).1
  have htwo : (start initial expected n).movesLeft i = 2 := by simp [movesLeft, start, hi]
  have hnone : s.movesLeft i = 0 := by
    have hmost := hleft i
    have hmoves := enough i hi
    omega
  obtain ⟨stage, expected⟩ := c
  cases stage with
  | waiting | elected => simp [movesLeft, here] at hnone
  | counted | refused => rfl

/-! ## When all have finished -/

theorem Elects.wins_le (h : Elects initial expected new n s) : s.wins ≤ n := by
  rw [← h.size]
  exact List.countP_le_length

/-- The winners have all been counted. -/
theorem Elects.winners_toNat (h : Elects initial expected new n s) (bounded : n < 2 ^ 64)
    (hfinished : s.finished = true) : s.winners.value.toNat = s.wins := by
  have hcounted : s.counted = s.wins := by
    refine List.countP_congr fun c hc => ?_
    have hover := List.all_eq_true.mp hfinished c hc
    obtain ⟨stage, e⟩ := c
    cases stage with
    | waiting | elected => exact absurd hover nofun
    | counted | refused => simp [Caller.won]
  have hlt : s.wins < 2 ^ Width.word.bits := Nat.lt_of_le_of_lt h.wins_le bounded
  rw [h.tally, BitVec.toNat_ofNat, hcounted, Nat.mod_eq_of_lt hlt]

/-- A caller that has finished has won with what it expected, or has found the flag that is still
there. -/
theorem Elects.caller_cases (h : Elects initial expected new n s) (hfinished : s.finished = true) :
    (∀ c ∈ s.callers, c.won = true → c = ⟨.counted, expected⟩) ∧
      ∀ c ∈ s.callers, c.won = false → c = ⟨.refused, s.flag.value⟩ ∧ s.flag.value ≠ expected := by
  constructor
  · intro c hc hwon
    have hover := List.all_eq_true.mp hfinished c hc
    have hkept := h.kept c hc
    obtain ⟨stage, e⟩ := c
    cases stage with
    | waiting | elected => exact absurd hover nofun
    | refused => exact absurd hwon nofun
    | counted =>
        obtain rfl : e = expected := hkept nofun
        rfl
  · intro c hc hlost
    have hover := List.all_eq_true.mp hfinished c hc
    have hfound := h.found c hc
    obtain ⟨stage, e⟩ := c
    cases stage with
    | waiting | elected => exact absurd hover nofun
    | counted => exact absurd hlost nofun
    | refused =>
        obtain ⟨rfl, hne⟩ : e = s.flag.value ∧ s.flag.value ≠ expected := hfound rfl
        exact ⟨rfl, hne⟩

/-- Nobody wins a flag that did not hold what was expected. -/
theorem Elects.nobody (h : Elects initial expected new n s) (hfinished : s.finished = true)
    (stale : initial ≠ expected) :
    s.callers = List.replicate n ⟨.refused, initial⟩ ∧ s.flag.value = initial := by
  have hnone : s.wins = 0 := by
    by_contra hsome
    exact stale (h.fresh (by omega))
  have hflag := h.flag
  rw [if_pos hnone] at hflag
  refine ⟨List.eq_replicate_iff.mpr ⟨h.size, fun c hc => ?_⟩, hflag⟩
  have hlost : c.won = false := by simpa using List.countP_eq_zero.mp hnone c hc
  rw [((h.caller_cases hfinished).2 c hc hlost).1, hflag]

/-- Everybody wins a flag that the swap leaves as it is. -/
theorem Elects.everybody (h : Elects initial expected new n s) (hfinished : s.finished = true)
    (fresh : initial = expected) (same : expected = new) :
    s.callers = List.replicate n ⟨.counted, expected⟩ ∧ s.flag.value = initial := by
  subst fresh same
  have hflag : s.flag.value = initial := by rw [h.flag, ite_self]
  refine ⟨List.eq_replicate_iff.mpr ⟨h.size, fun c hc => ?_⟩, hflag⟩
  cases hwon : c.won with
  | true => exact (h.caller_cases hfinished).1 c hc hwon
  | false => exact absurd hflag ((h.caller_cases hfinished).2 c hc hwon).2

/-- Exactly one caller wins a flag that its swap changes. -/
theorem Elects.somebody (h : Elects initial expected new n s) (hfinished : s.finished = true)
    (fresh : initial = expected) (other : expected ≠ new) (called : 0 < n) :
    (∃ i < n, s.callers = (List.replicate n ⟨.refused, new⟩).set i ⟨.counted, expected⟩) ∧
      s.flag.value = new := by
  obtain ⟨hwon, hlost⟩ := h.caller_cases hfinished
  have hflag := h.flag
  have hsome : s.wins ≠ 0 := by
    intro hnone
    -- There is a caller, and it was not refused by a flag that nobody has changed.
    obtain ⟨c, hc⟩ := List.exists_mem_of_length_pos (h.size.symm ▸ called)
    have hc' : c.won = false := by simpa using List.countP_eq_zero.mp hnone c hc
    rw [if_pos hnone, fresh] at hflag
    exact (hlost c hc hc').2 hflag
  have honce : s.wins = 1 := by
    by_contra hmore
    exact other (h.again (by omega))
  rw [if_neg hsome] at hflag
  refine ⟨?_, hflag⟩
  rw [← h.size]
  refine eq_set_of_countP_eq_one honce hwon fun c hc hc' => ?_
  rw [(hlost c hc hc').1, hflag]

/-- What the callers' `expected` hold depends on nothing but what the election began with. -/
theorem Elects.expected_perm {s' : Election} (h : Elects initial expected new n s)
    (h' : Elects initial expected new n s') (hfinished : s.finished = true)
    (hfinished' : s'.finished = true) :
    (s.callers.map Caller.expected).Perm (s'.callers.map Caller.expected) := by
  refine List.Perm.map _ ?_
  by_cases stale : initial ≠ expected
  · rw [(h.nobody hfinished stale).1, (h'.nobody hfinished' stale).1]
  · have fresh : initial = expected := Decidable.not_not.mp stale
    by_cases same : expected = new
    · rw [(h.everybody hfinished fresh same).1, (h'.everybody hfinished' fresh same).1]
    · rcases Nat.eq_zero_or_pos n with hnone | called
      · have hempty := h.size
        have hempty' := h'.size
        rw [hnone, List.length_eq_zero_iff] at hempty hempty'
        rw [hempty, hempty']
      · obtain ⟨⟨i, hi, hcallers⟩, -⟩ := h.somebody hfinished fresh same called
        obtain ⟨⟨i', hi', hcallers'⟩, -⟩ := h'.somebody hfinished' fresh same called
        rw [hcallers, hcallers']
        exact (replicate_set_perm hi _ _).trans (replicate_set_perm hi' _ _).symm

/-- **`winners_of_election`** -- for any number of callers, every initial, expected and new value
and every schedule: where a swap changes the flag, there is never more than one winner; callers that
have two moves each all finish; and once they have, nobody, everybody or exactly one has won, as the
three values say. The count is that of the successful swaps, and what the callers' `expected` hold
is the same for all schedules. -/
theorem winners_of_election (initial expected new : Value .byte) (n : Nat) (bounded : n < 2 ^ 64)
    (schedule : List Nat) :
    let s := (start initial expected n).run new schedule
    (expected ≠ new → s.wins ≤ 1) ∧
      ((∀ i < n, 2 ≤ schedule.count i) → s.finished = true) ∧
      (s.finished = true →
        (initial ≠ expected →
          s.callers = List.replicate n ⟨.refused, initial⟩ ∧ s.flag.value = initial) ∧
        (initial = expected → expected = new →
          s.callers = List.replicate n ⟨.counted, expected⟩ ∧ s.flag.value = initial) ∧
        (initial = expected → expected ≠ new → 0 < n →
          (∃ i < n, s.callers = (List.replicate n ⟨.refused, new⟩).set i ⟨.counted, expected⟩) ∧
            s.flag.value = new) ∧
        s.winners.value.toNat = s.wins ∧
        ∀ schedule' : List Nat,
          let s' := (start initial expected n).run new schedule'
          s'.finished = true →
            (s.callers.map Caller.expected).Perm (s'.callers.map Caller.expected)) := by
  intro s
  have h : Elects initial expected new n s :=
    run_elects (start_elects initial expected new n) schedule
  refine ⟨?_, finished_of_two_moves, ?_⟩
  · intro other
    by_contra hmore
    exact other (h.again (by omega))
  · intro hfinished
    refine ⟨h.nobody hfinished, h.everybody hfinished, h.somebody hfinished,
      h.winners_toNat bounded hfinished, ?_⟩
    intro schedule' s' hfinished'
    exact h.expected_perm (run_elects (start_elects initial expected new n) schedule') hfinished
      hfinished'

/-- Three callers whose swaps and counts interleave: the one that moves first wins, although it is
counted last. -/
theorem winners_of_election_interleaved :
    let schedule := [2, 0, 1, 0, 1, 2]
    let s := (start 0 0 3).run 5 schedule
    ((3 : Nat) < 2 ^ 64 ∧ s.finished = true) ∧
      (∃ i < 3, s.callers = (List.replicate 3 ⟨.refused, 5⟩).set i ⟨.counted, 0⟩) ∧
      s.flag.value = 5 ∧ s.winners.value.toNat = 1 := by
  intro schedule s
  obtain ⟨-, hends, hover⟩ := winners_of_election 0 0 5 3 (by decide) schedule
  have hfinished : s.finished = true := hends (by decide)
  obtain ⟨-, -, hone, hcount, -⟩ := hover hfinished
  obtain ⟨hcallers, hflag⟩ := hone rfl (by decide) (by decide)
  exact ⟨⟨by decide, hfinished⟩, hcallers, hflag, hcount.trans (by decide)⟩

end Election

end SharedCells
