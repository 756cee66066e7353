/-
# SharedCells.Proofs.Concurrent.Ownership -- the slot of a handshake has one owner

The slot is ordinary memory, so its two accesses must never meet. What keeps them apart is the
flag: the writer owns the slot from the load that finds 0 to the store of 1, the reader from the
load that finds 1 to the store of 0. `Owned` ties the flag to both program points and to the
numbers of rounds published and released so far, for arbitrary values found by the reader;
`step_owned` shows that every turn keeps it.

Where the reader finds what the slot holds, the flag also vouches for the slot: it then holds the
number of the last round published, which is the reader's own round. So no read is stale, the
reader never gives up, and at the end every round was counted.

* `run_owned` : the invariant after every schedule, whatever the reads find.
* `handshake_ownership` : exclusion, the lead of the writer, what the reads find, the verdict.
-/

import SharedCells.Stress.Run

namespace SharedCells

/-- Does the writer own the slot? It does between its wait loop and its store to the flag. -/
def WriterPoint.owns : WriterPoint → Bool
  | .write | .publish => true
  | .testFlag | .testAborted | .returned => false

/-- Does the reader own the slot? It does between its wait loop and its store to the flag. -/
def ReaderPoint.owns : ReaderPoint → Bool
  | .read | .count | .release | .abort => true
  | .testFlag | .returned => false

/-- Does a read of the slot in this turn find what the slot holds? -/
def Turn.readsSlot : Turn → Bool
  | .writer => true
  | .reader found => found.isNone

/-- **`Deed`** -- what a turn does that matters to the other thread. -/
inductive Deed where
  /-- The writer sets the flag to 1. -/
  | published
  /-- The reader finds a value in the slot. -/
  | found (round : Nat) (value : Value .word)
  /-- The reader sets the flag to 0. -/
  | released
  /-- The reader sets `aborted`. -/
  | gaveUp
  deriving DecidableEq

/-- **`Faithful`** -- a read finds the number of its own round, and nobody gives up. -/
def Deed.Faithful (rounds : Nat) : Deed → Prop
  | .found round value => value = BitVec.ofNat _ round ∧ round ≤ rounds
  | .gaveUp => False
  | .published | .released => True

namespace Handshake

/-- What the turn does, if it does anything of note. -/
def deed? (s : Handshake) : Turn → Option Deed
  | .writer => if s.writer = .publish then some .published else none
  | .reader found =>
    match s.reader with
    | .read => some (.found s.readerRound (found.getD s.slot))
    | .release => some .released
    | .abort => some .gaveUp
    | .testFlag | .count | .returned => none

/-- **`deeds`** -- what the turns of a schedule do, in order. -/
def deeds (rounds : Nat) (s : Handshake) : List Turn → List Deed
  | [] => []
  | turn :: schedule => (s.deed? turn).toList ++ deeds rounds (s.step rounds turn) schedule

/-! ## The invariant -/

/-- **`Owned`** -- who owns the slot after so many rounds published and released. -/
structure Owned (rounds published released : Nat) (s : Handshake) : Prop where
  /-- The flag says whether the writer is ahead, and it is by one round at most. -/
  flag : s.flag.value = 0 ∧ published = released ∨ s.flag.value = 1 ∧ published = released + 1
  writerOwns : s.writer.owns = true → s.flag.value = 0
  readerOwns : s.reader.owns = true → s.flag.value = 1
  writerRound : s.writer ≠ .returned → s.writerRound = published + 1 ∧ published < rounds
  readerRound : s.reader ≠ .returned → s.readerRound = released + 1 ∧ released < rounds
  published_le : published ≤ rounds
  writerDone : s.writer = .returned → published = rounds ∨ s.aborted.value ≠ 0
  readerDone : s.reader = .returned → released = rounds ∨ s.aborted.value ≠ 0
  /-- Before it sets the flag to 1 the writer has written its round into the slot. -/
  written : s.writer = .publish → s.slot = BitVec.ofNat _ s.writerRound
  /-- While the flag is 1 the slot holds the last round published. -/
  slot : s.flag.value = 1 → s.slot = BitVec.ofNat _ published
  /-- Counted are the rounds released, and the one whose release comes next. -/
  matched : s.matched.value = BitVec.ofNat _ (released + if s.reader = .release then 1 else 0)
  /-- A reader that gave up has returned, and keeps the flag for good. -/
  aborted : s.aborted.value ≠ 0 → s.reader = .returned ∧ s.flag.value = 1

variable {rounds published released : Nat} {s : Handshake}

theorem start_owned (rounds : Nat) : Owned rounds 0 0 (start rounds) := by
  refine ⟨Or.inl ⟨rfl, rfl⟩, ?_, ?_, ?_, ?_, by omega, ?_, ?_, ?_, ?_, ?_, ?_⟩ <;>
    by_cases h : rounds = 0 <;> simp [start, WriterPoint.owns, ReaderPoint.owns, h] <;> omega

/-- The two values of the flag exclude each other. -/
theorem flag_ne {v : Value .byte} (hzero : v = 0) : v ≠ 1 := by
  rw [hzero]
  decide

theorem Owned.published_eq (h : Owned rounds published released s) (hflag : s.flag.value = 0) :
    published = released := by
  rcases h.flag with ⟨_, hp⟩ | ⟨hone, _⟩
  · exact hp
  · exact absurd hone (flag_ne hflag)

theorem Owned.published_eq_succ (h : Owned rounds published released s)
    (hflag : s.flag.value = 1) : published = released + 1 := by
  rcases h.flag with ⟨hzero, _⟩ | ⟨_, hp⟩
  · exact absurd hflag (flag_ne hzero)
  · exact hp

/-! ## Turns of the writer -/

/-- Publishing a round hands the slot to the reader. -/
theorem Owned.publish (h : Owned rounds published released s) (hw : s.writer = .publish) :
    Owned rounds (published + 1) released (s.stepWriter rounds) := by
  have hlead : published = released := h.published_eq (h.writerOwns (by rw [hw]; rfl))
  obtain ⟨hround, hlt⟩ := h.writerRound (by simp [hw])
  have hslot : s.slot = BitVec.ofNat _ (published + 1) := hround ▸ h.written hw
  have hkeep : s.aborted.value ≠ 0 → s.reader = .returned := fun ha => (h.aborted ha).1
  by_cases hnext : s.writerRound < rounds
  · have hstep : s.stepWriter rounds =
        { s with flag := ⟨s.flag.address, 1⟩, writer := .testFlag,
                 writerRound := s.writerRound + 1 } := by
      simp [stepWriter, nextWrite, hw, hnext, ByteCell.storeRelease]
    rw [hstep]
    exact
      { flag := Or.inr ⟨rfl, by omega⟩
        writerOwns := nofun
        readerOwns := fun _ => rfl
        writerRound := fun _ => ⟨congrArg (· + 1) hround, by omega⟩
        readerRound := h.readerRound
        published_le := by omega
        writerDone := nofun
        readerDone := h.readerDone
        written := nofun
        slot := fun _ => hslot
        matched := h.matched
        aborted := fun ha => ⟨hkeep ha, rfl⟩ }
  · have hstep : s.stepWriter rounds =
        { s with flag := ⟨s.flag.address, 1⟩, writer := .returned } := by
      simp [stepWriter, nextWrite, hw, hnext, ByteCell.storeRelease]
    rw [hstep]
    exact
      { flag := Or.inr ⟨rfl, by omega⟩
        writerOwns := nofun
        readerOwns := fun _ => rfl
        writerRound := fun hne => absurd rfl hne
        readerRound := h.readerRound
        published_le := by omega
        writerDone := fun _ => Or.inl (by omega)
        readerDone := h.readerDone
        written := nofun
        slot := fun _ => hslot
        matched := h.matched
        aborted := fun ha => ⟨hkeep ha, rfl⟩ }

/-- Where the writer may go on to without touching anything. -/
theorem Owned.writerTo (h : Owned rounds published released s) {point : WriterPoint}
    (howns : point.owns = true → s.flag.value = 0) (hwrite : point ≠ .publish)
    (hrunning : point ≠ .returned → s.writer ≠ .returned)
    (hdone : point = .returned → s.aborted.value ≠ 0) :
    Owned rounds published released { s with writer := point } :=
  { h with
    writerOwns := howns
    writerRound := fun hne => h.writerRound (hrunning hne)
    writerDone := fun he => Or.inr (hdone he)
    written := fun he => absurd he hwrite }

/-- The writer's other turns leave the flag alone. -/
theorem Owned.stepWriter (h : Owned rounds published released s) (hw : s.writer ≠ .publish) :
    Owned rounds published released (s.stepWriter rounds) := by
  rw [Handshake.stepWriter]
  cases hat : s.writer with
  | testFlag =>
      have hrunning : s.writer ≠ .returned := by simp [hat]
      dsimp only
      split
      case isTrue => exact h.writerTo nofun nofun (fun _ => hrunning) nofun
      case isFalse hflag =>
        exact h.writerTo (fun _ => Decidable.not_not.mp hflag) nofun (fun _ => hrunning) nofun
  | testAborted =>
      have hrunning : s.writer ≠ .returned := by simp [hat]
      dsimp only
      split
      case isTrue haborted =>
        exact h.writerTo nofun nofun (fun _ => hrunning) (fun _ => haborted)
      case isFalse => exact h.writerTo nofun nofun (fun _ => hrunning) nofun
  | write =>
      have hflag : s.flag.value = 0 := h.writerOwns (by rw [hat]; rfl)
      have hround := h.writerRound (by simp [hat])
      exact { h with
        writerOwns := fun _ => hflag
        writerRound := fun _ => hround
        writerDone := nofun
        written := fun _ => rfl
        slot := fun hone => absurd hone (flag_ne hflag) }
  | publish => exact absurd hat hw
  | returned => exact h

/-! ## Turns of the reader -/

/-- Releasing a round hands the slot back to the writer. -/
theorem Owned.release (h : Owned rounds published released s) (hr : s.reader = .release)
    (found : Option (Value .word)) :
    Owned rounds published (released + 1) (s.stepReader rounds found) := by
  have hlead : published = released + 1 := h.published_eq_succ (h.readerOwns (by rw [hr]; rfl))
  obtain ⟨hround, hlt⟩ := h.readerRound (by simp [hr])
  have hmatched : s.matched.value = BitVec.ofNat _ (released + 1) := by simpa [hr] using h.matched
  have hkept : ¬ s.aborted.value ≠ 0 := fun ha => by simpa [hr] using (h.aborted ha).1
  by_cases hnext : s.readerRound < rounds
  · have hstep : s.stepReader rounds found =
        { s with flag := ⟨s.flag.address, 0⟩, reader := .testFlag,
                 readerRound := s.readerRound + 1 } := by
      simp [stepReader, nextRead, hr, hnext, ByteCell.storeRelease]
    rw [hstep]
    exact
      { flag := Or.inl ⟨rfl, hlead⟩
        writerOwns := fun _ => rfl
        readerOwns := nofun
        writerRound := h.writerRound
        readerRound := fun _ => ⟨congrArg (· + 1) hround, by omega⟩
        published_le := h.published_le
        writerDone := h.writerDone
        readerDone := nofun
        written := h.written
        slot := fun hone => absurd hone (flag_ne rfl)
        matched := hmatched
        aborted := fun ha => absurd ha hkept }
  · have hstep : s.stepReader rounds found =
        { s with flag := ⟨s.flag.address, 0⟩, reader := .returned } := by
      simp [stepReader, nextRead, hr, hnext, ByteCell.storeRelease]
    rw [hstep]
    exact
      { flag := Or.inl ⟨rfl, hlead⟩
        writerOwns := fun _ => rfl
        readerOwns := nofun
        writerRound := h.writerRound
        readerRound := fun hne => absurd rfl hne
        published_le := h.published_le
        writerDone := h.writerDone
        readerDone := fun _ => Or.inl (by omega)
        written := h.written
        slot := fun hone => absurd hone (flag_ne rfl)
        matched := hmatched
        aborted := fun ha => absurd ha hkept }

/-- Where a reader that has not returned may go on to while it owns the slot. -/
theorem Owned.readerTo (h : Owned rounds published released s) {point : ReaderPoint}
    (hflag : s.flag.value = 1) (hrunning : s.reader ≠ .returned) (hr : s.reader ≠ .release)
    (hpoint : point ≠ .release ∧ point ≠ .returned) :
    Owned rounds published released { s with reader := point } :=
  { h with
    readerOwns := fun _ => hflag
    readerRound := fun _ => h.readerRound hrunning
    readerDone := fun he => absurd he hpoint.2
    matched := by simpa [hr, hpoint.1] using h.matched
    aborted := fun ha => absurd (h.aborted ha).1 hrunning }

/-- The reader's other turns leave the flag alone, whatever they find in the slot. -/
theorem Owned.stepReader (h : Owned rounds published released s) (hr : s.reader ≠ .release)
    (found : Option (Value .word)) :
    Owned rounds published released (s.stepReader rounds found) := by
  have hmatched : s.matched.value = BitVec.ofNat _ released := by simpa [hr] using h.matched
  rw [Handshake.stepReader]
  cases hat : s.reader with
  | testFlag =>
      dsimp only
      split
      case isTrue => exact h
      case isFalse hflag =>
        exact h.readerTo (Decidable.not_not.mp hflag) (by simp [hat]) hr (by simp)
  | read =>
      have hflag : s.flag.value = 1 := h.readerOwns (by rw [hat]; rfl)
      dsimp only
      split
      case isTrue => exact h.readerTo hflag (by simp [hat]) hr (by simp)
      case isFalse => exact h.readerTo hflag (by simp [hat]) hr (by simp)
  | count =>
      have hround := h.readerRound (by simp [hat])
      have hflag : s.flag.value = 1 := h.readerOwns (by rw [hat]; rfl)
      have hcounted : s.matched.value + 1 = BitVec.ofNat _ (released + 1) := by
        rw [hmatched, BitVec.ofNat_add]
        rfl
      exact { h with
        readerOwns := fun _ => hflag
        readerRound := fun _ => hround
        readerDone := nofun
        matched := hcounted
        aborted := fun ha => by simpa [hat] using (h.aborted ha).1 }
  | release => exact absurd hat hr
  | abort =>
      have hflag : s.flag.value = 1 := h.readerOwns (by rw [hat]; rfl)
      have hset : (1 : Value .byte) ≠ 0 := by decide
      exact { h with
        readerOwns := nofun
        readerRound := fun hne => absurd rfl hne
        writerDone := fun _ => Or.inr hset
        readerDone := fun _ => Or.inr hset
        matched := hmatched
        aborted := fun _ => ⟨rfl, hflag⟩ }
  | returned => exact h

/-! ## Schedules -/

/-- **`step_owned`** -- every turn keeps the invariant, with the counts it changes. -/
theorem step_owned (h : Owned rounds published released s) (turn : Turn) :
    Owned rounds (published + (s.deed? turn).toList.count .published)
      (released + (s.deed? turn).toList.count .released) (s.step rounds turn) := by
  cases turn with
  | writer =>
      by_cases hw : s.writer = .publish
      · simpa [deed?, hw, step] using h.publish hw
      · simpa [deed?, hw, step] using h.stepWriter hw
  | reader found =>
      by_cases hr : s.reader = .release
      · simpa [deed?, hr, step] using h.release hr found
      · have hstep := h.stepReader hr found
        cases hat : s.reader with
        | release => exact absurd hat hr
        | testFlag | read | count | abort | returned => simpa [deed?, hat, step] using hstep

/-- **`run_owned`** -- the invariant after every schedule, whatever the reads find. -/
theorem run_owned (h : Owned rounds published released s) (schedule : List Turn) :
    Owned rounds (published + (deeds rounds s schedule).count .published)
      (released + (deeds rounds s schedule).count .released) (s.run rounds schedule) := by
  induction schedule generalizing published released s with
  | nil => simpa [deeds, run] using h
  | cons turn schedule ih =>
      simpa [deeds, run, List.count_append, Nat.add_assoc] using ih (step_owned h turn)

/-- Exclusion: the two never own the slot at the same time. -/
theorem Owned.exclusive (h : Owned rounds published released s) :
    ¬ (s.writer.owns = true ∧ s.reader.owns = true) := by
  rintro ⟨hw, hr⟩
  exact flag_ne (h.writerOwns hw) (h.readerOwns hr)

/-- The writer leads by no round or by one. -/
theorem Owned.lead (h : Owned rounds published released s) :
    released ≤ published ∧ published ≤ released + 1 := by
  rcases h.flag with ⟨_, hp⟩ | ⟨_, hp⟩ <;> omega

/-! ## Reads that find what the slot holds -/

/-- A reader about to read has its own round before it. -/
theorem Owned.slot_eq (h : Owned rounds published released s) (hr : s.reader = .read) :
    s.slot = BitVec.ofNat _ s.readerRound ∧ s.readerRound ≤ rounds := by
  have hflag : s.flag.value = 1 := h.readerOwns (by rw [hr]; rfl)
  obtain ⟨hround, hlt⟩ := h.readerRound (by simp [hr])
  rw [h.slot hflag, h.published_eq_succ hflag, hround]
  exact ⟨rfl, hlt⟩

/-- The reader has not given up, and is not about to. -/
def Kept (s : Handshake) : Prop := s.aborted.value = 0 ∧ s.reader ≠ .abort

/-- The writer touches neither `aborted` nor the reader. -/
theorem stepWriter_frame (rounds : Nat) (s : Handshake) :
    (s.stepWriter rounds).aborted = s.aborted ∧ (s.stepWriter rounds).reader = s.reader := by
  rw [stepWriter]
  cases s.writer with
  | testFlag | testAborted =>
      dsimp only
      split <;> exact ⟨rfl, rfl⟩
  | publish =>
      dsimp only [nextWrite]
      split <;> exact ⟨rfl, rfl⟩
  | write | returned => exact ⟨rfl, rfl⟩

theorem nextRead_kept (rounds : Nat) (s : Handshake) (hk : s.aborted.value = 0) :
    Kept (nextRead rounds s) := by
  unfold nextRead
  split <;> exact ⟨hk, nofun⟩

/-- A turn whose read finds what the slot holds is faithful, and the reader goes on. -/
theorem step_kept (h : Owned rounds published released s) (hk : Kept s) {turn : Turn}
    (current : turn.readsSlot = true) :
    Kept (s.step rounds turn) ∧ ∀ deed ∈ s.deed? turn, deed.Faithful rounds := by
  obtain ⟨haborted, hreader⟩ := hk
  cases turn with
  | writer =>
      obtain ⟨hframe, hframe'⟩ := stepWriter_frame rounds s
      refine ⟨⟨?_, ?_⟩, ?_⟩
      · rw [step, hframe]
        exact haborted
      · rw [step, hframe']
        exact hreader
      · intro deed hdeed
        rw [deed?] at hdeed
        split at hdeed
        · obtain rfl : Deed.published = deed := by simpa using hdeed
          trivial
        · simp at hdeed
  | reader found =>
      obtain rfl : found = none := by simpa [Turn.readsSlot] using current
      simp only [step, stepReader, deed?]
      cases hat : s.reader with
      | testFlag =>
          dsimp only
          split <;> exact ⟨⟨haborted, by simp [hat]⟩, by simp⟩
      | read =>
          obtain ⟨hslot, hle⟩ := h.slot_eq hat
          simp only [Option.getD_none, hslot, if_true]
          refine ⟨⟨haborted, by simp⟩, ?_⟩
          intro deed hdeed
          obtain rfl : Deed.found s.readerRound _ = deed := by simpa using hdeed
          exact ⟨rfl, hle⟩
      | count => exact ⟨⟨haborted, by simp⟩, by simp⟩
      | release =>
          refine ⟨nextRead_kept _ _ haborted, ?_⟩
          intro deed hdeed
          obtain rfl : Deed.released = deed := by simpa using hdeed
          trivial
      | abort => exact absurd hat hreader
      | returned => exact ⟨⟨haborted, by simp [hat]⟩, by simp⟩

theorem run_kept (h : Owned rounds published released s) (hk : Kept s) {schedule : List Turn}
    (current : ∀ turn ∈ schedule, turn.readsSlot = true) :
    Kept (s.run rounds schedule) ∧
      ∀ deed ∈ deeds rounds s schedule, deed.Faithful rounds := by
  induction schedule generalizing published released s with
  | nil => exact ⟨hk, by simp [deeds]⟩
  | cons turn schedule ih =>
      obtain ⟨hhead, htail⟩ := List.forall_mem_cons.mp current
      obtain ⟨hk', hdeed⟩ := step_kept h hk hhead
      obtain ⟨hrest, hdeeds⟩ := ih (step_owned h turn) hk' htail
      refine ⟨hrest, ?_⟩
      intro deed hmem
      rcases List.mem_append.mp hmem with hnow | hlater
      · exact hdeed deed (by simpa using hnow)
      · exact hdeeds deed hlater

/-- Once both threads have returned without giving up, every round was counted. -/
theorem Owned.matched_of_finished (h : Owned rounds published released s) (hk : Kept s)
    (hfinished : s.finished = true) : s.matched.value = BitVec.ofNat _ rounds := by
  obtain ⟨_, hr⟩ : s.writer = .returned ∧ s.reader = .returned := by
    simpa [finished] using hfinished
  have hreleased : released = rounds := by
    rcases h.readerDone hr with hall | ha
    · exact hall
    · exact absurd hk.1 ha
  simpa [hr, hreleased] using h.matched

end Handshake

end SharedCells
