/-
# SharedCells.Proofs.Host.Digits -- one word, and the eight bytes it lies in

A host views the same eight bytes as one word and as eight bytes, in any order. Two wraparounds
meet there: a word wraps modulo `2 ^ 64`, with carries through all its bytes, and a byte wraps
modulo 256 and carries nowhere. Both are told by one number below `2 ^ 64`. A word step acts on the
whole number, a byte step on one of its digits in base 256 and on no other.

`Memory.AliasedStep` says so in terms of `Answers`, which is arithmetic on one integer. It leaves
nothing open, because a number below `2 ^ 64` is known by its eight digits.

* `eq_of_digits`, `digit_swap` : numbers that agree in all digits, or in all digits but one.
* `Memory.view_aliased`, `Memory.AliasedStep.unique` : one step.
* `Memory.viewAll_asDigits` : every run, and when the two additions of a byte's amount agree.
-/

import SharedCells.Proofs.Cell.Integer
import SharedCells.Proofs.Host.Views

namespace SharedCells

/-! ## Digits in base 256 -/

/-- **`digit i n`** -- the digit of a number that counts for `256 ^ i`. -/
def digit (i n : Nat) : Nat := n / 256 ^ i % 256

theorem digit_zero (n : Nat) : digit 0 n = n % 256 := by simp [digit]

theorem digit_succ (i n : Nat) : digit (i + 1) n = digit i (n / 256) := by
  rw [digit, digit, Nat.pow_succ', Nat.div_div_eq_div_mul]

theorem digit_lt (i n : Nat) : digit i n < 256 := Nat.mod_lt _ (by decide)

/-- So many digits determine a number. -/
theorem eq_of_digits {k a b : Nat} (ha : a < 256 ^ k) (hb : b < 256 ^ k)
    (h : ∀ j < k, digit j a = digit j b) : a = b := by
  induction k generalizing a b with
  | zero =>
      simp only [Nat.pow_zero] at ha hb
      omega
  | succ k ih =>
      have hlast : a % 256 = b % 256 := by simpa [digit_zero] using h 0 (by omega)
      have hrest : a / 256 = b / 256 := by
        rw [Nat.pow_succ] at ha hb
        refine ih (by omega) (by omega) fun j hj => ?_
        simpa [digit_succ] using h (j + 1) (by omega)
      omega

/-- Numbers that agree in all digits but one differ by what that digit counts for. -/
theorem digit_swap {k i a b : Nat} (ha : a < 256 ^ k) (hb : b < 256 ^ k) (hi : i < k)
    (h : ∀ j < k, j ≠ i → digit j a = digit j b) :
    a + digit i b * 256 ^ i = b + digit i a * 256 ^ i := by
  induction k generalizing i a b with
  | zero => omega
  | succ k ih =>
      rw [Nat.pow_succ] at ha hb
      cases i with
      | zero =>
          have hrest : a / 256 = b / 256 := by
            refine eq_of_digits (k := k) (by omega) (by omega) fun j hj => ?_
            simpa [digit_succ] using h (j + 1) (by omega) (by omega)
          simp only [digit_zero, Nat.pow_zero]
          omega
      | succ i =>
          have hlast : a % 256 = b % 256 := by
            simpa [digit_zero] using h 0 (by omega) (by omega)
          have hrest : a / 256 + digit i (b / 256) * 256 ^ i =
              b / 256 + digit i (a / 256) * 256 ^ i := by
            refine ih (by omega) (by omega) (by omega) fun j hj hne => ?_
            simpa [digit_succ] using h (j + 1) (by omega) (by omega)
          have hshift : ∀ d, d * 256 ^ (i + 1) = 256 * (d * 256 ^ i) := by
            intro d
            rw [Nat.pow_succ', Nat.mul_left_comm]
          rw [digit_succ, digit_succ, hshift, hshift]
          omega

/-- An addition in one digit and the same addition to the number differ by the carry. -/
theorem digit_carry {k i a b n : Nat} (ha : a < 256 ^ k) (hb : b < 256 ^ k) (hi : i < k)
    (here : digit i b = (digit i a + n) % 256)
    (others : ∀ j < k, j ≠ i → digit j b = digit j a) :
    b + (digit i a + n) / 256 * 256 ^ (i + 1) = a + n * 256 ^ i := by
  have hswap := digit_swap hb ha hi others
  have hdivision : (digit i a + n) * 256 ^ i =
      ((digit i a + n) / 256 * 256 + digit i b) * 256 ^ i := by
    rw [here, Nat.div_add_mod']
  have hpow : (digit i a + n) / 256 * 256 ^ (i + 1) =
      (digit i a + n) / 256 * 256 * 256 ^ i := by
    rw [Nat.pow_succ', Nat.mul_assoc]
  rw [Nat.add_mul, Nat.add_mul] at hdivision
  omega

/-- The carry is lost at the end of the word, and shows anywhere else. -/
theorem add_eq_digit_add_iff {i a b n : Nat} (ha : a < 256 ^ 8) (hb : b < 256 ^ 8) (hi : i < 8)
    (hn : n < 256) (here : digit i b = (digit i a + n) % 256)
    (others : ∀ j < 8, j ≠ i → digit j b = digit j a) :
    (a + n * 256 ^ i) % 2 ^ 64 = b ↔ digit i a + n < 256 ∨ i = 7 := by
  have hcarry := digit_carry ha hb hi here others
  have hdigit := digit_lt i a
  rw [← hcarry]
  by_cases hsmall : digit i a + n < 256
  · have hnone : (digit i a + n) / 256 = 0 := by omega
    simp only [hnone, hsmall, Nat.zero_mul, Nat.add_zero, true_or, iff_true]
    omega
  · have hone : (digit i a + n) / 256 = 1 := by omega
    rw [hone, Nat.one_mul]
    simp only [hsmall, false_or]
    constructor
    · intro hlost
      -- Below the last digit the carry is less than the word can hold, and not zero.
      rcases Nat.lt_or_ge i 7 with hlast | hlast
      · have hle : 256 ^ (i + 1) ≤ 256 ^ 7 := Nat.pow_le_pow_right (by decide) (by omega)
        have hpos : 0 < 256 ^ (i + 1) := Nat.pow_pos (by decide)
        omega
      · omega
    · rintro rfl
      omega

/-- The digits of the number that bytes denote are the bytes. -/
theorem Value.digit_natOfBytes {bytes : List Byte} {j : Nat} {b : Byte} (h : bytes[j]? = some b) :
    digit j (natOfBytes bytes) = b.toNat := by
  induction bytes generalizing j with
  | nil => simp at h
  | cons c rest ih =>
      have hc : c.toNat < 256 := c.isLt
      rw [natOfBytes]
      cases j with
      | zero =>
          obtain rfl : c = b := by simpa using h
          rw [digit_zero]
          omega
      | succ j =>
          have hrest : (c.toNat + 256 * natOfBytes rest) / 256 = natOfBytes rest := by omega
          rw [digit_succ, hrest]
          exact ih (by simpa using h)

namespace Memory

variable {m after : Memory} {place : Nat}

/-! ## The digits of a word in memory -/

theorem numberAt_lt {w : Width} {offset : Nat} (h : m.InBounds w offset) :
    m.numberAt w offset < 2 ^ w.bits :=
  Value.natOfBytes_lt_width (length_window h)

/-- The word at a place has the byte `j` places behind it as its digit. -/
theorem digit_numberAt (h : m.InBounds .word place) {j : Nat} (hj : j < 8) :
    digit j (m.numberAt .word place) = m.numberAt .byte (place + j) := by
  have hfits : place + 8 ≤ m.bytes.length := h
  have hbyte : (m.window .byte (place + j))[0]? = m.bytes[place + j]? :=
    getElem?_window (w := .byte) (by decide)
  have hword : (m.window .word place)[j]? = m.bytes[place + j]? :=
    getElem?_window (w := .word) hj
  have hlength : (m.window .byte (place + j)).length = 1 :=
    length_window (w := .byte) (show place + j + 1 ≤ m.bytes.length by omega)
  obtain ⟨b, hb⟩ := List.length_eq_one_iff.mp hlength
  rw [hb] at hbyte
  rw [numberAt, numberAt, hb, Value.digit_natOfBytes (hword.trans hbyte.symm)]
  simp [Value.natOfBytes]

/-- Each byte of the memory is a digit of the word. -/
theorem getElem?_eq_digit (h : m.InBounds .word place) {j : Nat} (hj : j < 8) :
    m.bytes[place + j]? = some (BitVec.ofNat 8 (digit j (m.numberAt .word place))) := by
  have hfits : place + 8 ≤ m.bytes.length := h
  have hinside : place + j < m.bytes.length := by omega
  have hhere : m.bytes[place + j]? = some m.bytes[place + j] := List.getElem?_eq_getElem hinside
  have hword : (m.window .word place)[j]? = m.bytes[place + j]? :=
    getElem?_window (w := .word) hj
  rw [numberAt, Value.digit_natOfBytes (hword.trans hhere), hhere]
  simp

end Memory

/-! ## One number for all views -/

/-- **`Within`** -- the step views the word at a place, or one of the word's bytes. -/
def ViewStep.Within (s : ViewStep) (place : Nat) : Prop :=
  match s.width with
  | .word => s.offset = place
  | .byte => place ≤ s.offset ∧ s.offset < place + 8

namespace Memory

/-- **`AliasedStep here place V`** -- a step on the number `V` below `2 ^ 64`, which lies at a place
with an address. A word step is a step of the whole number. A byte step is a step of one digit,
and the other digits stay. -/
inductive AliasedStep (here : Address) (place V : Nat) : ViewStep → ViewOutcome → Nat → Prop
  | whole {checked spurious : Bool} {call : Call (Value .word) .word} {reply : Reply .word}
      {after : Nat} (answers : Answers .word here spurious V call.request reply.response after)
      (below : after < 2 ^ 64) :
      AliasedStep here place V ⟨.word, place, checked, call, spurious⟩ (.ran .word here reply) after
  | part {offset after : Nat} {address : Address} {checked spurious : Bool}
      {call : Call (Value .byte) .byte} {reply : Reply .byte} (i : Nat) (inside : i < 8)
      (behind : offset = place + i) (stands : address = here + BitVec.ofNat 64 i)
      (answers : Answers .byte address spurious (digit i V) call.request reply.response
        (digit i after))
      (others : ∀ j < 8, j ≠ i → digit j after = digit j V) (below : after < 2 ^ 64) :
      AliasedStep here place V ⟨.byte, offset, checked, call, spurious⟩ (.ran .byte address reply)
        after

/-- **`AliasedRun`** -- steps one after another on one number. -/
inductive AliasedRun (here : Address) (place : Nat) :
    Nat → List ViewStep → List ViewOutcome → Nat → Prop
  | done (V : Nat) : AliasedRun here place V [] [] V
  | step {V after last : Nat} {s : ViewStep} {outcome : ViewOutcome} {steps : List ViewStep}
      {outcomes : List ViewOutcome} (first : AliasedStep here place V s outcome after)
      (later : AliasedRun here place after steps outcomes last) :
      AliasedRun here place V (s :: steps) (outcome :: outcomes) last

end Memory

/-- A reply is known by the answer it is read as. -/
theorem Reply.response_injective {w : Width} {reply reply' : Reply w}
    (h : reply.response = reply'.response) : reply = reply' := by
  rcases reply with _ | v | (v | v) | ⟨done, v⟩ | t | a <;>
    rcases reply' with _ | v' | (v' | v') | ⟨done', v'⟩ | t' | a' <;>
      simp_all [response, BitVec.toNat_inj]

theorem Answers.after_of_add {w : Width} {here : Address} {spoiled : Bool} {m amount after : Nat}
    {response : Response} (h : Answers w here spoiled m (.add amount) response after) :
    after = (m + amount) % 2 ^ w.bits := by
  cases h
  rfl

namespace Memory

variable {here : Address} {place V after after' : Nat} {s : ViewStep}
  {outcome outcome' : ViewOutcome}

/-- **`AliasedStep.unique`** -- a step on a number has one outcome and leaves one number. -/
theorem AliasedStep.unique (h : AliasedStep here place V s outcome after)
    (h' : AliasedStep here place V s outcome' after') : outcome = outcome' ∧ after = after' := by
  cases h with
  | whole answers =>
      cases h' with
      | whole answers' =>
          obtain ⟨hresponse, hafter⟩ := answers.unique answers'
          rw [Reply.response_injective hresponse]
          exact ⟨rfl, hafter⟩
  | part i inside behind stands answers others below =>
      cases h' with
      | part i' inside' behind' stands' answers' others' below' =>
          obtain rfl := Nat.add_left_cancel (behind.symm.trans behind')
          subst stands stands'
          obtain ⟨hresponse, hdigit⟩ := answers.unique answers'
          rw [Reply.response_injective hresponse]
          refine ⟨rfl, eq_of_digits (k := 8) below below' fun j hj => ?_⟩
          by_cases hji : j = i
          · rw [hji, hdigit]
          · rw [others j hj hji, others' j hj hji]

/-! ## Steps of a host on one word -/

variable {m : Memory}

/-- A memory that holds a word at a place, aligned as a word has to be. -/
structure HoldsWord (m : Memory) (place : Nat) : Prop where
  placed : m.Placed
  inBounds : m.InBounds .word place
  aligned : (m.base.toNat + place) % 8 = 0

theorem HoldsWord.of_sameOutside {m' : Memory} (h : m.HoldsWord place)
    (same : m.SameOutside .word place m') : m'.HoldsWord place := by
  refine ⟨⟨?_, ?_⟩, same.inBounds_iff.mpr h.inBounds, ?_⟩
  · rw [same.base]
    exact h.placed.base_ne_zero
  · rw [same.base, same.length]
    exact h.placed.fits
  · rw [same.base]
    exact h.aligned

theorem HoldsWord.inBounds_byte (h : m.HoldsWord place) {i : Nat} (hi : i < 8) :
    m.InBounds .byte (place + i) := by
  have hfits : place + 8 ≤ m.bytes.length := h.inBounds
  show place + i + 1 ≤ m.bytes.length
  omega

/-- Bytes outside a word are outside each of its bytes. -/
theorem SameOutside.of_byte {m' : Memory} {i : Nat} (hi : i < 8)
    (h : m.SameOutside .byte (place + i) m') : m.SameOutside .word place m' where
  base := h.base
  length := h.length
  bytes k hk := by
    refine h.bytes k ?_
    simp only [Width.bytes] at hk ⊢
    omega

theorem addressOf_add (m : Memory) (place i : Nat) :
    m.addressOf (place + i) = m.addressOf place + BitVec.ofNat 64 i := by
  rw [addressOf, addressOf, BitVec.ofNat_add, BitVec.add_assoc]

/-- A word view of a word's place is accepted, and so is a view of any byte of the word. -/
theorem HoldsWord.view_eq (h : m.HoldsWord place) (within : s.Within place) :
    m.view s =
      (.ran s.width (m.addressOf s.offset)
          (s.call.run s.spurious (m.cellAt s.width s.offset)).1,
        m.setValueAt s.offset (s.call.run s.spurious (m.cellAt s.width s.offset)).2.value) := by
  refine view_accepted fun _ => ?_
  obtain ⟨w, offset, checked, call, spurious⟩ := s
  cases w with
  | word =>
      obtain rfl : offset = place := within
      refine h.placed.refusal_of_straight h.inBounds fun _ => ?_
      rw [h.placed.toNat_addressOf h.inBounds]
      exact h.aligned
  | byte =>
      obtain ⟨hfrom, hto⟩ : place ≤ offset ∧ offset < place + 8 := within
      obtain ⟨i, rfl⟩ : ∃ i, offset = place + i := ⟨offset - place, by omega⟩
      exact h.placed.refusal_of_straight (h.inBounds_byte (by omega)) nofun

/-- A cell in the memory replies as the number that its bytes denote, and leaves that number's
successor in its bytes. -/
theorem cellAt_answers {w : Width} {offset : Nat} (h : m.InBounds w offset)
    (call : Call (Value w) w) (spurious : Bool) :
    let run := call.run spurious (m.cellAt w offset)
    Answers w (m.addressOf offset) spurious (m.numberAt w offset) call.request run.1.response
      ((m.setValueAt offset run.2.value).numberAt w offset) := by
  intro run
  obtain ⟨hanswers, -⟩ := call.run_answers spurious (m.cellAt w offset)
  rw [numberAt_setValueAt h, ← toNat_valueAt h]
  exact hanswers

/-- **`view_aliased`** -- a view of the word, or of one of its bytes, is a step on the number that
the word denotes, and leaves the bytes outside the word. -/
theorem view_aliased (h : m.HoldsWord place) (within : s.Within place) :
    AliasedStep (m.addressOf place) place (m.numberAt .word place) s (m.view s).1
        ((m.view s).2.numberAt .word place) ∧
      m.SameOutside .word place (m.view s).2 := by
  rw [h.view_eq within]
  obtain ⟨w, offset, checked, call, spurious⟩ := s
  cases w with
  | word =>
      obtain rfl : offset = place := within
      have same := setValueAt_sameOutside h.inBounds
        (call.run spurious (m.cellAt .word offset)).2.value
      refine ⟨.whole (cellAt_answers h.inBounds call spurious) ?_, same⟩
      exact numberAt_lt (same.inBounds_iff.mpr h.inBounds)
  | byte =>
      obtain ⟨hfrom, hto⟩ : place ≤ offset ∧ offset < place + 8 := within
      obtain ⟨i, rfl⟩ : ∃ i, offset = place + i := ⟨offset - place, by omega⟩
      have hi : i < 8 := by omega
      have hbyte := h.inBounds_byte hi
      have frame := setValueAt_sameOutside hbyte
        (call.run spurious (m.cellAt .byte (place + i))).2.value
      have same := frame.of_byte hi
      have hword := same.inBounds_iff.mpr h.inBounds
      refine ⟨.part i hi rfl (m.addressOf_add place i) ?_ ?_ (numberAt_lt hword), same⟩
      · rw [digit_numberAt h.inBounds hi, digit_numberAt hword hi]
        exact cellAt_answers hbyte call spurious
      · intro j hj hne
        -- The byte `j` is not the one that is written.
        have hbytes := frame.bytes (place + j) (by simp only [Width.bytes]; omega)
        rw [getElem?_eq_digit h.inBounds hj, getElem?_eq_digit hword hj] at hbytes
        have hdigit := congrArg BitVec.toNat (Option.some.inj hbytes)
        simpa [Nat.mod_eq_of_lt (digit_lt j _)] using hdigit

theorem viewAll_aliased {steps : List ViewStep} (h : m.HoldsWord place)
    (within : ∀ s ∈ steps, s.Within place) :
    AliasedRun (m.addressOf place) place (m.numberAt .word place) steps (m.viewAll steps).1
        ((m.viewAll steps).2.numberAt .word place) ∧
      m.SameOutside .word place (m.viewAll steps).2 := by
  induction steps generalizing m with
  | nil => exact ⟨.done _, .refl m .word place⟩
  | cons s steps ih =>
      obtain ⟨hfirst, hlater⟩ := List.forall_mem_cons.mp within
      obtain ⟨hstep, same⟩ := view_aliased h hfirst
      have haddress : (m.view s).2.addressOf place = m.addressOf place := by
        rw [addressOf, addressOf, same.base]
      obtain ⟨hrun, hrest⟩ := ih (h.of_sameOutside same) hlater
      rw [haddress] at hrun
      exact ⟨.step hstep hrun, same.trans hrest⟩

theorem AliasedRun.unique {steps : List ViewStep} {outcomes outcomes' : List ViewOutcome}
    {last last' : Nat} (h : AliasedRun here place V steps outcomes last)
    (h' : AliasedRun here place V steps outcomes' last') :
    outcomes = outcomes' ∧ last = last' := by
  induction h generalizing outcomes' last' with
  | done V =>
      cases h'
      exact ⟨rfl, rfl⟩
  | step first later ih =>
      cases h' with
      | step first' later' =>
          obtain ⟨rfl, rfl⟩ := first.unique first'
          obtain ⟨rfl, rfl⟩ := ih later'
          exact ⟨rfl, rfl⟩

/-! ## Additions of both widths -/

/-- A word wraps around as a whole. -/
theorem AliasedStep.word_adds {n : Value .word} {checked spurious : Bool}
    (h : AliasedStep here place V ⟨.word, place, checked, .fetchAdd n, spurious⟩ outcome after) :
    after = (V + n.toNat) % 2 ^ 64 := by
  cases h with
  | whole answers => exact answers.after_of_add

/-- A byte wraps around in its digit. -/
theorem AliasedStep.byte_adds {i : Nat} {n : Value .byte} {checked spurious : Bool}
    (h : AliasedStep here place V ⟨.byte, place + i, checked, .fetchAdd n, spurious⟩ outcome
      after) :
    digit i after = (digit i V + n.toNat) % 256 ∧
      ∀ j < 8, j ≠ i → digit j after = digit j V := by
  cases h with
  | part i' inside behind stands answers others below =>
      obtain rfl := Nat.add_left_cancel behind
      exact ⟨answers.after_of_add, others⟩

/-- Adding to a byte, and adding the same amount to the word where that byte counts. -/
theorem HoldsWord.additions_agree_iff (h : m.HoldsWord place) {i : Nat} (hi : i < 8)
    (n : Value .byte) (checked checked' spurious spurious' : Bool) :
    (m.view ⟨.word, place, checked, .fetchAdd (BitVec.ofNat 64 (n.toNat * 256 ^ i)), spurious⟩).2 =
        (m.view ⟨.byte, place + i, checked', .fetchAdd n, spurious'⟩).2 ↔
      digit i (m.numberAt .word place) + n.toNat < 256 ∨ i = 7 := by
  obtain ⟨hwhole, sameWhole⟩ := view_aliased (s := ⟨.word, place, checked,
    .fetchAdd (BitVec.ofNat 64 (n.toNat * 256 ^ i)), spurious⟩) h rfl
  obtain ⟨hpart, samePart⟩ := view_aliased (s := ⟨.byte, place + i, checked', .fetchAdd n,
    spurious'⟩) h (show place ≤ place + i ∧ place + i < place + 8 by omega)
  generalize (m.view _).2 = whole at *
  generalize (m.view _).2 = part at *
  have hword := samePart.inBounds_iff.mpr h.inBounds
  have hn : n.toNat < 256 := n.isLt
  have hamount : (BitVec.ofNat 64 (n.toNat * 256 ^ i)).toNat = n.toNat * 256 ^ i := by
    have hle : 256 ^ i ≤ 256 ^ 7 := Nat.pow_le_pow_right (by decide) (by omega)
    have hmul : n.toNat * 256 ^ i ≤ 255 * 256 ^ 7 := Nat.mul_le_mul (by omega) hle
    rw [BitVec.toNat_ofNat, Nat.mod_eq_of_lt (by omega)]
  obtain ⟨hdigit, hothers⟩ := hpart.byte_adds
  have hagree := add_eq_digit_add_iff (numberAt_lt h.inBounds) (numberAt_lt hword) hi hn hdigit
    hothers
  have hsum : whole.numberAt .word place =
      (m.numberAt .word place + n.toNat * 256 ^ i) % 2 ^ 64 :=
    hwhole.word_adds.trans (congrArg (fun k => (m.numberAt .word place + k) % 2 ^ 64) hamount)
  rw [← hagree, ← hsum]
  constructor
  · rintro rfl
    rfl
  · exact eq_of_numberAt hword (samePart.symm.trans sameWhole)

/-- **`viewAll_asDigits`** -- whatever a host does to a word and to its bytes, in whatever order:
the outcomes and the bytes are those of one number below `2 ^ 64`, and that number has no other
run. An addition to a byte, or a subtraction from it, stays in the byte; it leaves the bytes that
the addition to the word leaves exactly if it does not wrap around, or if the byte is the last. -/
theorem viewAll_asDigits (m : Memory) (place : Nat) (steps : List ViewStep)
    (holds : m.HoldsWord place) (within : ∀ s ∈ steps, s.Within place) :
    let run := m.viewAll steps
    let V := m.numberAt .word place
    let last := run.2.numberAt .word place
    (AliasedRun (m.addressOf place) place V steps run.1 last ∧
      ∀ outcomes number, AliasedRun (m.addressOf place) place V steps outcomes number →
        outcomes = run.1 ∧ number = last) ∧
      (V < 2 ^ 64 ∧ last < 2 ^ 64) ∧
      (∀ j < 8, m.bytes[place + j]? = some (BitVec.ofNat 8 (digit j V)) ∧
        run.2.bytes[place + j]? = some (BitVec.ofNat 8 (digit j last))) ∧
      m.SameOutside .word place run.2 ∧
      ∀ i < 8, ∀ (n : Value .byte) (checked checked' spurious spurious' : Bool),
        let added := (m.view ⟨.byte, place + i, checked, .fetchAdd n, spurious⟩).2
        let subtracted := (m.view ⟨.byte, place + i, checked, .fetchSub n, spurious⟩).2
        let carried := (m.view ⟨.word, place, checked',
          .fetchAdd (BitVec.ofNat 64 (n.toNat * 256 ^ i)), spurious'⟩).2
        m.SameOutside .byte (place + i) added ∧ m.SameOutside .byte (place + i) subtracted ∧
          (carried = added ↔ digit i V + n.toNat < 256 ∨ i = 7) := by
  intro run V last
  obtain ⟨hrun, same⟩ := viewAll_aliased holds within
  have hword : run.2.InBounds .word place := same.inBounds_iff.mpr holds.inBounds
  refine ⟨⟨hrun, fun _ _ hother => hother.unique hrun⟩,
    ⟨numberAt_lt holds.inBounds, numberAt_lt hword⟩, ?_, same, ?_⟩
  · intro j hj
    exact ⟨getElem?_eq_digit holds.inBounds hj, getElem?_eq_digit hword hj⟩
  · intro i hi n checked checked' spurious spurious' added subtracted carried
    have frame (call : Call (Value .byte) .byte) :
        m.SameOutside .byte (place + i)
          (m.view ⟨.byte, place + i, checked, call, spurious⟩).2 :=
      view_frame (s := ⟨.byte, place + i, checked, call, spurious⟩) (holds.inBounds_byte hi)
    exact ⟨frame (.fetchAdd n), frame (.fetchSub n), holds.additions_agree_iff hi n ..⟩

/-- A word that begins two bytes behind the base, and another byte on each side of it. The second
byte of the word wraps around in place, the word carries through three bytes, and the last byte
takes its amount from both widths alike. -/
theorem viewAll_asDigits_carrying :
    let m : Memory := ⟨65534, [7, 7, 0, 255, 255, 255, 0, 0, 0, 255, 9]⟩
    let steps : List ViewStep :=
      [⟨.byte, 3, true, .fetchAdd 1, false⟩, ⟨.byte, 3, false, .fetchSub 1, false⟩,
        ⟨.word, 2, true, .trySwap .weak 5 6 .acqRel, true⟩, ⟨.word, 2, true, .fetchAdd 256, false⟩]
    (m.HoldsWord 2 ∧ ∀ s ∈ steps, s.Within 2) ∧
      AliasedRun (m.addressOf 2) 2 0xff000000ffffff00 steps (m.viewAll steps).1
        0xff00000100000000 ∧
      (m.view ⟨.word, 2, true, .fetchAdd (BitVec.ofNat 64 (2 * 256 ^ 7)), false⟩).2 =
        (m.view ⟨.byte, 9, true, .fetchAdd 2, false⟩).2 := by
  intro m steps
  have holds : m.HoldsWord 2 := ⟨⟨by decide, by decide⟩, by decide, by decide⟩
  have within : ∀ s ∈ steps, s.Within 2 := by
    intro s hs
    rcases (by simpa [steps] using hs) with rfl | rfl | rfl | rfl
    · exact ⟨by decide, by decide⟩
    · exact ⟨by decide, by decide⟩
    · rfl
    · rfl
  obtain ⟨⟨hrun, -⟩, -, -, -, hadditions⟩ := viewAll_asDigits m 2 steps holds within
  have hfirst : m.numberAt .word 2 = 0xff000000ffffff00 := by decide
  have hlast : (m.viewAll steps).2.numberAt .word 2 = 0xff00000100000000 := by decide
  obtain ⟨-, -, hagree⟩ := hadditions 7 (by decide) 2 true true false false
  rw [hfirst, hlast] at hrun
  exact ⟨⟨holds, within⟩, hrun, hagree.mpr (Or.inr rfl)⟩

end Memory

end SharedCells
