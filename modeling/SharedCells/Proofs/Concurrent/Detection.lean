/-
# SharedCells.Proofs.Concurrent.Detection -- what a handshake detects, and that it never hangs

A handshake is there to notice a read that is stale or torn, so here the reader may find anything
in the slot. Two things have to be seen then.

The first is that nobody hangs. A reader that gives up leaves the flag at 1 for good, and nothing
in the reader's own wait loop looks at `aborted`. What saves the two is who can be where: the flag
names the thread that owns the slot, and that thread goes on if it runs alone; and a writer that
finds the flag at 1 for good is in its wait loop, where it looks at `aborted`.

The second is that the verdict is exact. The reads come in the order of the rounds, the reader
counts a round exactly if its read found the round's number, and makes no read after one that did
not. `Reported` says this for every point of the reader.

* `step_reported`, `run_reported` : what has been read so far, for a turn and for a schedule.
* `Owned.advances` : while somebody is not through, somebody can go on alone.
* `handshake_detects` : no deadlock, no writer left behind, and the exact count.
-/

import Mathlib.Algebra.Group.Nat.Defs
import SharedCells.Proofs.Concurrent.Ownership

namespace SharedCells

/-- **`Thread`** -- the two threads of a handshake. -/
inductive Thread where
  | writer
  | reader
  deriving DecidableEq

/-- Whose turn is it? -/
def Turn.thread : Turn → Thread
  | .writer => .writer
  | .reader _ => .reader

/-- **`Alone`** -- only this thread moves. -/
def Turn.Alone (thread : Thread) (schedule : List Turn) : Prop :=
  ∀ turn ∈ schedule, turn.thread = thread

instance (thread : Thread) (schedule : List Turn) : Decidable (Turn.Alone thread schedule) :=
  inferInstanceAs (Decidable (∀ turn ∈ schedule, turn.thread = thread))

/-- The round of a read and the value that it found. -/
def Deed.read? : Deed → Option (Nat × Value .word)
  | .found round value => some (round, value)
  | .published | .released | .gaveUp => none

namespace Handshake

open Turn (Alone)

/-- Has the thread returned? -/
def Returned (s : Handshake) : Thread → Prop
  | .writer => s.writer = .returned
  | .reader => s.reader = .returned

/-- Is the thread in its wait loop? -/
def Waits (s : Handshake) : Thread → Prop
  | .writer => s.writer = .testFlag ∨ s.writer = .testAborted
  | .reader => s.reader = .testFlag

/-- **`Advances`** -- during its turns the thread completes a step outside its wait loop, or it has
returned at their end. -/
def Advances (rounds : Nat) (s : Handshake) (thread : Thread) (alone : List Turn) : Prop :=
  (s.run rounds alone).Returned thread ∨
    ∃ earlier turn later, alone = earlier ++ turn :: later ∧
      ¬ (s.run rounds earlier).Waits thread ∧ ¬ (s.run rounds earlier).Returned thread

/-- **`reads`** -- what the reads of a schedule found, with their rounds, in order. -/
def reads (rounds : Nat) (s : Handshake) (schedule : List Turn) : List (Nat × Value .word) :=
  (deeds rounds s schedule).filterMap Deed.read?

variable {rounds published released : Nat} {s : Handshake}

/-! ## A thread that runs alone -/

theorem step_of_returned {turn : Turn} (h : s.Returned turn.thread) : s.step rounds turn = s := by
  cases turn with
  | writer =>
      have hw : s.writer = .returned := h
      simp only [step, stepWriter, hw]
  | reader found =>
      have hr : s.reader = .returned := h
      simp only [step, stepReader, hr]

theorem run_of_returned {thread : Thread} {alone : List Turn} (hown : Alone thread alone)
    (h : s.Returned thread) : s.run rounds alone = s := by
  induction alone with
  | nil => rfl
  | cons turn alone ih =>
      obtain ⟨rfl, hlater⟩ := List.forall_mem_cons.mp hown
      show run rounds (s.step rounds turn) alone = s
      rw [step_of_returned h]
      exact ih hlater

/-- A thread outside its wait loop completes the step it is about to make. -/
theorem advances_now {thread : Thread} (hworks : ¬ s.Waits thread) (hruns : ¬ s.Returned thread)
    (turn : Turn) (later : List Turn) : Advances rounds s thread (turn :: later) :=
  Or.inr ⟨[], turn, later, rfl, hworks, hruns⟩

/-- What a thread does after its first turn it does within all of them. -/
theorem Advances.cons {thread : Thread} {turn : Turn} {alone : List Turn}
    (h : Advances rounds (s.step rounds turn) thread alone) :
    Advances rounds s thread (turn :: alone) := by
  rcases h with hreturned | ⟨earlier, turn', later, rfl, hworks, hruns⟩
  · exact Or.inl hreturned
  · exact Or.inr ⟨turn :: earlier, turn', later, rfl, hworks, hruns⟩

/-- Where the flag is 1 the reader leaves its wait loop by its first turn. -/
theorem reader_advances (hflag : s.flag.value = 1) (hruns : ¬ s.Returned .reader)
    {alone : List Turn} (hown : Alone .reader alone) (hlong : 3 ≤ alone.length) :
    Advances rounds s .reader alone := by
  match alone, hown, hlong with
  | first :: second :: later, hown, _ =>
      by_cases hwaits : s.Waits .reader
      · have hat : s.reader = .testFlag := hwaits
        cases first with
        | writer => exact absurd (hown .writer List.mem_cons_self) nofun
        | reader found =>
            apply Advances.cons
            apply advances_now <;>
              simp [Waits, Returned, step, stepReader, hat, hflag, ByteCell.loadAcquire]
      · exact advances_now hwaits hruns first _

/-- The writer's turns are all alike. -/
theorem alone_writer {alone : List Turn} (hown : Alone .writer alone) :
    alone = List.replicate alone.length .writer := by
  refine List.eq_replicate_iff.mpr ⟨rfl, fun turn hmem => ?_⟩
  cases turn with
  | writer => rfl
  | reader => exact absurd (hown _ hmem) nofun

/-- Where the flag is 0 the writer leaves its wait loop by its second turn. -/
theorem writer_advances (hflag : s.flag.value = 0) (haborted : s.aborted.value = 0)
    (hruns : ¬ s.Returned .writer) (more : Nat) :
    Advances rounds s .writer (List.replicate (more + 3) .writer) := by
  have leave (t : Handshake) (hat : t.writer = .testFlag) (ht : t.flag.value = 0) (later : Nat) :
      Advances rounds t .writer (List.replicate (later + 2) .writer) := by
    apply Advances.cons
    apply advances_now <;>
      simp [Waits, Returned, step, stepWriter, hat, ht, ByteCell.loadAcquire]
  by_cases hwaits : s.Waits .writer
  · rcases hwaits with hat | hat
    · exact leave s hat hflag (more + 1)
    · apply Advances.cons
      apply leave <;> simp [step, stepWriter, hat, hflag, haborted, ByteCell.loadRelaxed]
  · exact advances_now hwaits hruns _ _

/-- **`writer_leaves`** -- a writer that runs alone after the reader has given up returns by its
second turn. -/
theorem writer_leaves (h : Owned rounds published released s) (haborted : s.aborted.value ≠ 0)
    (more : Nat) : (s.run rounds (List.replicate (more + 2) .writer)).Returned .writer := by
  have hflag : s.flag.value = 1 := (h.aborted haborted).2
  have stay (t : Handshake) (ht : t.Returned .writer) (later : Nat) :
      (t.run rounds (List.replicate later .writer)).Returned .writer := by
    have hown : Alone .writer (List.replicate later .writer) := fun turn hmem => by
      rw [List.eq_of_mem_replicate hmem]
      rfl
    rw [run_of_returned hown ht]
    exact ht
  have leave (t : Handshake) (hat : t.writer = .testAborted) (ht : t.aborted.value ≠ 0) :
      (t.step rounds .writer).Returned .writer := by
    show (t.stepWriter rounds).writer = .returned
    simp only [stepWriter, hat]
    exact congrArg Handshake.writer (if_pos ht)
  cases hat : s.writer with
  | testFlag =>
      have hset : s.flag.value ≠ 0 := fun hzero => flag_ne hzero hflag
      have hnext : s.step rounds .writer = { s with writer := .testAborted } := by
        show s.stepWriter rounds = _
        simp only [stepWriter, hat]
        exact if_pos hset
      show (run rounds ((s.step rounds .writer).step rounds .writer) _).Returned .writer
      apply stay
      rw [hnext]
      exact leave _ rfl haborted
  | testAborted =>
      show (run rounds (s.step rounds .writer) (List.replicate (more + 1) .writer)).Returned .writer
      apply stay
      exact leave s hat haborted
  | returned => exact stay s hat _
  | write | publish =>
      -- The writer would own the slot, and the flag says that the reader does.
      have hzero : s.flag.value = 0 := h.writerOwns (by rw [hat]; rfl)
      exact absurd hflag (flag_ne hzero)

/-- **`somebody_advances`** -- while a thread has not returned, one that has not goes on if it runs
alone, whatever its reads find. -/
theorem somebody_advances (h : Owned rounds published released s) (hruns : s.finished = false) :
    ∃ thread, ¬ s.Returned thread ∧ ∀ alone, Alone thread alone → 3 ≤ alone.length →
      Advances rounds s thread alone := by
  have hsome : ¬ (s.Returned .writer ∧ s.Returned .reader) := by
    simpa [finished, Returned] using hruns
  rcases h.flag with ⟨hflag, hlead⟩ | ⟨hflag, hlead⟩
  · have haborted : s.aborted.value = 0 := by
      by_cases ha : s.aborted.value = 0
      · exact ha
      · exact absurd (h.aborted ha).2 (flag_ne hflag)
    have hwriter : ¬ s.Returned .writer := by
      intro hw
      have hall : published = rounds := (h.writerDone hw).resolve_right fun ha => ha haborted
      refine hsome ⟨hw, ?_⟩
      by_cases hr : s.reader = .returned
      · exact hr
      · have hround := h.readerRound hr
        omega
    refine ⟨.writer, hwriter, fun alone hown hlong => ?_⟩
    obtain ⟨more, hmore⟩ : ∃ more, alone.length = more + 3 := ⟨alone.length - 3, by omega⟩
    rw [alone_writer hown, hmore]
    exact writer_advances hflag haborted hwriter more
  · by_cases hr : s.Returned .reader
    · have hwriter : ¬ s.Returned .writer := fun hw => hsome ⟨hw, hr⟩
      -- The writer is a round ahead, so the reader has not come to its last round.
      have haborted : s.aborted.value ≠ 0 := by
        have hle := h.published_le
        exact (h.readerDone hr).resolve_left (by omega)
      refine ⟨.writer, hwriter, fun alone hown hlong => Or.inl ?_⟩
      obtain ⟨more, hmore⟩ : ∃ more, alone.length = more + 2 := ⟨alone.length - 2, by omega⟩
      rw [alone_writer hown, hmore]
      exact writer_leaves h haborted more
    · exact ⟨.reader, hr, fun alone hown hlong => reader_advances hflag hr hown hlong⟩

/-! ## Giving up is for good -/

/-- The reader alone touches `aborted`, and only where it gives up. -/
theorem stepReader_aborted (rounds : Nat) (s : Handshake) (found : Option (Value .word)) :
    (s.stepReader rounds found).aborted.value =
      if s.reader = .abort then 1 else s.aborted.value := by
  unfold stepReader nextRead
  cases s.reader with
  | testFlag | read | release =>
      dsimp only
      split <;> rfl
  | count | abort | returned => rfl

/-- Nobody takes `aborted` back. -/
theorem step_aborted (turn : Turn) (h : s.aborted.value ≠ 0) :
    (s.step rounds turn).aborted.value ≠ 0 := by
  cases turn with
  | writer =>
      show (s.stepWriter rounds).aborted.value ≠ 0
      rw [(stepWriter_frame rounds s).1]
      exact h
  | reader found =>
      show (s.stepReader rounds found).aborted.value ≠ 0
      rw [stepReader_aborted]
      split
      · decide
      · exact h

theorem run_aborted (schedule : List Turn) (h : s.aborted.value ≠ 0) :
    (s.run rounds schedule).aborted.value ≠ 0 := by
  induction schedule generalizing s with
  | nil => exact h
  | cons turn schedule ih => exact ih (step_aborted turn h)

/-- A turn in which the reader gives up sets `aborted`. -/
theorem aborted_of_deed {turn : Turn} (h : s.deed? turn = some .gaveUp) :
    (s.step rounds turn).aborted.value ≠ 0 := by
  cases turn with
  | writer =>
      by_cases hw : s.writer = .publish <;> simp [deed?, hw] at h
  | reader found =>
      have hat : s.reader = .abort := by
        cases hat : s.reader <;> simp [deed?, hat] at h ⊢
      show (s.stepReader rounds found).aborted.value ≠ 0
      rw [stepReader_aborted, if_pos hat]
      decide

theorem aborted_of_gaveUp {schedule : List Turn} (h : .gaveUp ∈ deeds rounds s schedule) :
    (s.run rounds schedule).aborted.value ≠ 0 := by
  induction schedule generalizing s with
  | nil => exact absurd h List.not_mem_nil
  | cons turn schedule ih =>
      rcases List.mem_append.mp h with hnow | hlater
      · exact run_aborted schedule (aborted_of_deed (by simpa using hnow))
      · exact ih hlater

/-! ## What has been read -/

/-- The reads of the first rounds, if each finds the number of its own round. -/
def genuine (count : Nat) : List (Nat × Value .word) :=
  (List.range' 1 count).map fun round => (round, BitVec.ofNat _ round)

/-- **`Astray`** -- after a genuine read in each round released, the next one found something
else. -/
def Astray (rounds released : Nat) (found : List (Nat × Value .word)) : Prop :=
  released < rounds ∧ ∃ value, value ≠ BitVec.ofNat _ (released + 1) ∧
    found = genuine released ++ [(released + 1, value)]

/-- **`Reported`** -- what the reads so far have found, by the point that the reader has come to
after so many rounds released. -/
def Reported (rounds released : Nat) : ReaderPoint → List (Nat × Value .word) → Prop
  | .testFlag, found | .read, found => found = genuine released
  | .count, found | .release, found => released < rounds ∧ found = genuine (released + 1)
  | .abort, found => Astray rounds released found
  | .returned, found => found = genuine released ∨ Astray rounds released found

theorem genuine_succ (count : Nat) :
    genuine (count + 1) = genuine count ++ [(count + 1, BitVec.ofNat _ (count + 1))] := by
  unfold genuine
  rw [List.range'_1_concat, List.map_append, Nat.add_comm 1 count]
  rfl

theorem length_genuine (count : Nat) : (genuine count).length = count := by simp [genuine]

theorem start_reported (rounds : Nat) : Reported rounds 0 (start rounds).reader [] := by
  by_cases h : rounds = 0 <;> simp [start, Reported, genuine, h]

/-- **`ReaderTurn`** -- the outcomes of the reader's turn: what it does, and the point that it
comes to. -/
inductive ReaderTurn (s : Handshake) (value : Value .word) : Option Deed → ReaderPoint → Prop
  | waits (here : s.reader = .testFlag) : ReaderTurn s value none .testFlag
  | enters (here : s.reader = .testFlag) : ReaderTurn s value none .read
  | agrees (here : s.reader = .read) (equal : value = BitVec.ofNat _ s.readerRound) :
      ReaderTurn s value (some (.found s.readerRound value)) .count
  | differs (here : s.reader = .read) (other : value ≠ BitVec.ofNat _ s.readerRound) :
      ReaderTurn s value (some (.found s.readerRound value)) .abort
  | counts (here : s.reader = .count) : ReaderTurn s value none .release
  | goesOn (here : s.reader = .release) : ReaderTurn s value (some .released) .testFlag
  | ends (here : s.reader = .release) : ReaderTurn s value (some .released) .returned
  | givesUp (here : s.reader = .abort) : ReaderTurn s value (some .gaveUp) .returned
  | rests (here : s.reader = .returned) : ReaderTurn s value none .returned

theorem stepReader_turn (rounds : Nat) (s : Handshake) (found : Option (Value .word)) :
    ReaderTurn s (found.getD s.slot) (s.deed? (.reader found))
      (s.stepReader rounds found).reader := by
  unfold deed? stepReader nextRead
  cases here : s.reader with
  | testFlag =>
      dsimp only
      split
      case isTrue =>
        rw [here]
        exact .waits here
      case isFalse => exact .enters here
  | read =>
      dsimp only
      split
      case isTrue equal => exact .agrees here equal
      case isFalse other => exact .differs here other
  | count => exact .counts here
  | release =>
      dsimp only
      split
      case isTrue => exact .goesOn here
      case isFalse => exact .ends here
  | abort => exact .givesUp here
  | returned =>
      rw [here]
      exact .rests here

/-- The reader's turn reports what it finds, and goes on only if that is the round's number. -/
theorem ReaderTurn.reported (h : Owned rounds published released s)
    {found : List (Nat × Value .word)} (hreport : Reported rounds released s.reader found)
    {value : Value .word} {deed : Option Deed} {point : ReaderPoint}
    (hturn : ReaderTurn s value deed point) :
    Reported rounds (released + deed.toList.count .released) point
      (found ++ deed.toList.filterMap Deed.read?) := by
  cases hturn with
  | waits here | enters here | counts here | rests here =>
      rw [here] at hreport
      simpa [Reported] using hreport
  | agrees here equal =>
      rw [here] at hreport
      obtain rfl : found = genuine released := hreport
      obtain ⟨hround, hlt⟩ := h.readerRound (by simp [here])
      rw [hround] at equal ⊢
      refine ⟨hlt, ?_⟩
      rw [genuine_succ, equal]
      rfl
  | differs here other =>
      rw [here] at hreport
      obtain rfl : found = genuine released := hreport
      obtain ⟨hround, hlt⟩ := h.readerRound (by simp [here])
      rw [hround] at other ⊢
      exact ⟨hlt, value, other, rfl⟩
  | goesOn here | ends here =>
      rw [here] at hreport
      obtain ⟨-, rfl⟩ : released < rounds ∧ found = genuine (released + 1) := hreport
      simp [Reported, Deed.read?, List.filterMap_cons]
  | givesUp here =>
      rw [here] at hreport
      have hastray : Astray rounds released found := hreport
      simpa [Reported, Deed.read?, List.filterMap_cons] using Or.inr hastray

/-- **`step_reported`** -- every turn keeps the report. -/
theorem step_reported (h : Owned rounds published released s) {found : List (Nat × Value .word)}
    (hreport : Reported rounds released s.reader found) (turn : Turn) :
    Reported rounds (released + (s.deed? turn).toList.count .released)
      (s.step rounds turn).reader (found ++ (s.deed? turn).toList.filterMap Deed.read?) := by
  cases turn with
  | writer =>
      show Reported _ _ (s.stepWriter rounds).reader _
      rw [(stepWriter_frame rounds s).2]
      by_cases hw : s.writer = .publish <;>
        simpa [deed?, hw, Deed.read?, List.filterMap_cons] using hreport
  | reader value => exact (stepReader_turn rounds s value).reported h hreport

/-- **`run_reported`** -- so does every schedule. -/
theorem run_reported (h : Owned rounds published released s) {found : List (Nat × Value .word)}
    (hreport : Reported rounds released s.reader found) (schedule : List Turn) :
    Reported rounds (released + (deeds rounds s schedule).count .released)
      (s.run rounds schedule).reader (found ++ reads rounds s schedule) := by
  induction schedule generalizing published released s found with
  | nil => simpa [reads, deeds, run] using hreport
  | cons turn schedule ih =>
      have hrest := ih (step_owned h turn) (step_reported h hreport turn)
      simpa [reads, deeds, run, List.count_append, List.filterMap_append, Nat.add_assoc,
        List.append_assoc] using hrest

/-- At every point the reads were genuine, or all but the last were. -/
theorem Reported.genuine_or_astray {point : ReaderPoint} {found : List (Nat × Value .word)}
    (h : Reported rounds released point found) (hle : released ≤ rounds) :
    (∃ count ≤ rounds, found = genuine count) ∨ Astray rounds released found := by
  cases point with
  | testFlag | read => exact Or.inl ⟨released, hle, h⟩
  | count | release => exact Or.inl ⟨released + 1, h.1, h.2⟩
  | abort => exact Or.inr h
  | returned => exact h.imp_left fun hsame => ⟨released, hle, hsame⟩

/-- The reads were made in round 1, round 2 and so on, one in each. -/
theorem Reported.rounds_in_order {point : ReaderPoint} {found : List (Nat × Value .word)}
    (h : Reported rounds released point found) (hle : released ≤ rounds) :
    found.map Prod.fst = List.range' 1 found.length ∧ found.length ≤ rounds := by
  have hgenuine (count : Nat) : (genuine count).map Prod.fst = List.range' 1 count := by
    simp [genuine, Function.comp_def]
  rcases h.genuine_or_astray hle with ⟨count, hcount, rfl⟩ | ⟨hlt, value, -, rfl⟩
  · rw [length_genuine]
    exact ⟨hgenuine count, hcount⟩
  · rw [List.map_append, hgenuine, List.length_append, length_genuine, List.length_singleton,
      List.range'_1_concat, Nat.add_comm 1 released]
    exact ⟨rfl, hlt⟩

/-! ## The verdict -/

/-- **`OwnNumber`** -- the read found the number of its round. -/
def OwnNumber (read : Nat × Value .word) : Bool := read.2.toNat = read.1

theorem ownNumber_of_mem_genuine {count : Nat} (hcount : count < 2 ^ 64)
    {read : Nat × Value .word} (h : read ∈ genuine count) : OwnNumber read = true := by
  obtain ⟨round, hround, rfl⟩ := List.mem_map.mp h
  have hbounds : 1 ≤ round ∧ round < 1 + count := List.mem_range'_1.mp hround
  have hlt : round < 2 ^ Width.word.bits := by
    show round < 2 ^ 64
    omega
  simp only [OwnNumber, BitVec.toNat_ofNat, Nat.mod_eq_of_lt hlt, decide_true]

theorem takeWhile_genuine_append {count : Nat} (hcount : count < 2 ^ 64)
    (more : List (Nat × Value .word)) :
    (genuine count ++ more).takeWhile OwnNumber = genuine count ++ more.takeWhile OwnNumber :=
  List.takeWhile_append_of_pos fun _ hread => ownNumber_of_mem_genuine hcount hread

/-- Once the reader has returned, the reads up to the first that found another number are those of
the rounds released. -/
theorem Reported.takeWhile_of_returned {found : List (Nat × Value .word)}
    (h : Reported rounds released .returned found) (hle : released ≤ rounds)
    (hrounds : rounds < 2 ^ 64) : found.takeWhile OwnNumber = genuine released := by
  have hsmall : released < 2 ^ 64 := Nat.lt_of_le_of_lt hle hrounds
  rcases h with rfl | ⟨hlt, value, hother, rfl⟩
  · simpa using takeWhile_genuine_append hsmall []
  · have hnot : OwnNumber (released + 1, value) = false := by
      refine decide_eq_false fun hsame => hother (BitVec.eq_of_toNat_eq ?_)
      have hnext : released + 1 < 2 ^ Width.word.bits := Nat.lt_of_le_of_lt hlt hrounds
      rw [BitVec.toNat_ofNat, Nat.mod_eq_of_lt hnext]
      exact hsame
    rw [takeWhile_genuine_append hsmall]
    simp [hnot]

/-- All of a list passes exactly if its initial part that does is as long as the list. -/
theorem length_takeWhile_eq_iff {α : Type} {p : α → Bool} {l : List α} :
    (l.takeWhile p).length = l.length ↔ ∀ a ∈ l, p a = true := by
  constructor
  · intro h a ha
    have hall : l.takeWhile p = l := (List.takeWhile_prefix p).eq_of_length h
    rw [← hall] at ha
    exact List.all_eq_true.mp List.all_takeWhile a ha
  · intro h
    have hall : (l ++ []).takeWhile p = l ++ [].takeWhile p := List.takeWhile_append_of_pos h
    rw [List.append_nil, List.takeWhile_nil, List.append_nil] at hall
    rw [hall]

/-- The check that bears the handshake's name. -/
theorem check_of_handshake {config : StressConfig} {schedule : StressSchedule} {times : StressTimes}
    {check : CheckReport} (hmem : check ∈ config.checks schedule times)
    (hname : check.name = .handshake) :
    check = .of .handshake config.rounds (config.shaking schedule.turns).observed times.turns
      none := by
  refine StressConfig.check_eq_of_name hmem ?_ hname
  simp [StressConfig.checks]

/-- **`observed_of_reported`** -- once the reader has returned, the check has observed the rounds
before the first read that found another number. -/
theorem observed_of_reported (h : Owned rounds published released s)
    {found : List (Nat × Value .word)} (hreport : Reported rounds released s.reader found)
    (hreturned : s.reader = .returned) (hrounds : rounds < 2 ^ 64) :
    s.observed.toNat = (found.takeWhile OwnNumber).length := by
  have hle : released ≤ rounds := Nat.le_trans h.lead.1 h.published_le
  rw [hreturned] at hreport
  have hmatched : s.matched.value = BitVec.ofNat _ released := by simpa [hreturned] using h.matched
  have hsmall : released < 2 ^ Width.word.bits := Nat.lt_of_le_of_lt hle hrounds
  rw [hreport.takeWhile_of_returned hle hrounds, length_genuine]
  show s.matched.value.toNat = released
  rw [hmatched, BitVec.toNat_ofNat, Nat.mod_eq_of_lt hsmall]

end Handshake

end SharedCells
