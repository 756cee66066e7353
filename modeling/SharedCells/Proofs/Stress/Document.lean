/-
# SharedCells.Proofs.Stress.Document -- the report of a stress run is read back

A report is written as a document and read as one, and what is read has every count as the exact
number it was, whatever its size. `ReadAs` says so member by member; the times are left aside, since
they are measured, and all that matters is that their text is a number. This holds for the times as
they are written here, too.

* `CheckReport.exists_denotes`, `StressReport.exists_denotes` : the documents.
* `Elapsed.exists_isText` : a time is written as a number.
* `StressReport.text_read_back` : the report that is read is the one that was written.
-/

import Mathlib.Data.Nat.Digits.Defs
import SharedCells.Proofs.Json.Pretty
import SharedCells.Stress.Report

namespace SharedCells

/-! ## What is read -/

/-- A count as it is read. -/
def countRead (n : Value .word) : Json Json.Number := .number (.natural n.toNat)

/-- **`CheckReport.ReadAs`** -- the document has the members of the check. -/
structure CheckReport.ReadAs (c : CheckReport) (doc : Json Json.Number) : Prop where
  name : doc.get? "name" = some (.string c.name.text)
  expected : doc.get? "expected" = some (countRead c.expected)
  observed : doc.get? "observed" = some (countRead c.observed)
  passed : doc.get? "passed" = some (.bool c.passed)
  /-- There is such a member exactly if the retries were counted. -/
  retries : doc.get? "cas_retries" = c.retries.map countRead

/-- **`StressReport.ReadAs`** -- the document has the members of the report, and its checks in their
order. -/
structure StressReport.ReadAs (r : StressReport) (doc : Json Json.Number) : Prop where
  threads : doc.get? "threads" = some (countRead r.threads)
  iterations : doc.get? "iterations" = some (countRead r.iterations)
  rounds : doc.get? "rounds" = some (countRead r.rounds)
  checks : ∃ docs, doc.get? "checks" = some (.array docs) ∧
    List.Forall₂ CheckReport.ReadAs r.checks docs

/-! ## What is written -/

/-- Counts are written in decimal; how a time is written is left open. -/
def Figure.textWith (millis : Elapsed → List Char) : Figure → List Char
  | count n => Numeral.decimal n.toNat
  | time t => millis t

/-- **`StressReport.textWith`** -- the text of the report, however times are written. -/
def StressReport.textWith (millis : Elapsed → List Char) (r : StressReport) : String :=
  String.ofList (r.toJson.pretty (Figure.textWith millis) 0)

theorem StressReport.textWith_millisText (r : StressReport) :
    r.textWith Figure.millisText = r.text := by
  have htext : Figure.textWith Figure.millisText = Figure.text := by
    funext figure
    cases figure <;> rfl
  rw [textWith, htext, text]

open Json

variable {millis : Elapsed → List Char} {depth : Nat}

theorem denotes_of_leaf {d : Json Figure} {v : Json Number}
    (h : Leaf (Figure.textWith millis) d v) : Denotes (Figure.textWith millis) depth d v := by
  cases depth with
  | zero => exact h
  | succ depth => exact Or.inl h

theorem denotes_count (n : Value .word) :
    Denotes (Figure.textWith millis) depth (.number (.count n)) (countRead n) :=
  denotes_of_leaf (.number (Number.isText_decimal n))

/-- One member of an object, and those behind it. -/
theorem member_cons {ds : List (String × Json Figure)} {vs : List (String × Json Number)}
    {d : Json Figure} {v : Json Number} (name : String)
    (h : Denotes (Figure.textWith millis) depth d v)
    (hrest : List.Forall₂ (fun d v => d.1 = v.1 ∧ Denotes (Figure.textWith millis) depth d.2 v.2)
      ds vs) :
    List.Forall₂ (fun d v => d.1 = v.1 ∧ Denotes (Figure.textWith millis) depth d.2 v.2)
      ((name, d) :: ds) ((name, v) :: vs) :=
  .cons ⟨rfl, h⟩ hrest

/-- A check is written as a document that is read as the check. -/
theorem CheckReport.exists_denotes (depth : Nat) {c : CheckReport}
    (helapsed : ∃ x, Number.IsText (millis c.elapsed) x) :
    ∃ doc, Denotes (Figure.textWith millis) (depth + 1) c.toJson doc ∧ c.ReadAs doc := by
  obtain ⟨x, hx⟩ := helapsed
  have hname : Denotes (Figure.textWith millis) depth (.string c.name.text) (.string c.name.text) :=
    denotes_of_leaf (.string _)
  have hpassed : Denotes (Figure.textWith millis) depth (.bool c.passed) (.bool c.passed) :=
    denotes_of_leaf (.bool _)
  have htime : Denotes (Figure.textWith millis) depth (.number (.time c.elapsed)) (.number x) :=
    denotes_of_leaf (.number hx)
  obtain ⟨name, expected, observed, passed, elapsed, retries⟩ := c
  cases retries with
  | none =>
      exact ⟨_, Or.inr (.object (member_cons _ hname (member_cons _ (denotes_count expected)
        (member_cons _ (denotes_count observed) (member_cons _ hpassed
          (member_cons _ htime .nil)))))), rfl, rfl, rfl, rfl, rfl⟩
  | some n =>
      exact ⟨_, Or.inr (.object (member_cons _ hname (member_cons _ (denotes_count expected)
        (member_cons _ (denotes_count observed) (member_cons _ hpassed (member_cons _ htime
          (member_cons _ (denotes_count n) .nil))))))), rfl, rfl, rfl, rfl, rfl⟩

theorem checks_exist_denotes (depth : Nat) {checks : List CheckReport}
    (helapsed : ∀ c ∈ checks, ∃ x, Number.IsText (millis c.elapsed) x) :
    ∃ docs, List.Forall₂ (Denotes (Figure.textWith millis) (depth + 1))
      (checks.map CheckReport.toJson) docs ∧ List.Forall₂ CheckReport.ReadAs checks docs := by
  induction checks with
  | nil => exact ⟨[], .nil, .nil⟩
  | cons c checks ih =>
      obtain ⟨hc, hchecks⟩ := List.forall_mem_cons.mp helapsed
      obtain ⟨doc, hdoc, hread⟩ := CheckReport.exists_denotes depth hc
      obtain ⟨docs, hdocs, hreads⟩ := ih hchecks
      exact ⟨doc :: docs, .cons hdoc hdocs, .cons hread hreads⟩

/-- **`StressReport.exists_denotes`** -- a report is written as a document that is read as the
report. -/
theorem StressReport.exists_denotes (depth : Nat) {r : StressReport}
    (helapsed : ∀ c ∈ r.checks, ∃ x, Number.IsText (millis c.elapsed) x) :
    ∃ doc, Denotes (Figure.textWith millis) (depth + 3) r.toJson doc ∧ r.ReadAs doc := by
  obtain ⟨docs, hdocs, hreads⟩ := checks_exist_denotes depth helapsed
  have hchecks : Denotes (Figure.textWith millis) (depth + 2)
      (.array (r.checks.map CheckReport.toJson)) (.array docs) := Or.inr (.array hdocs)
  exact ⟨_, Or.inr (.object (member_cons _ (denotes_count r.threads)
    (member_cons _ (denotes_count r.iterations) (member_cons _ (denotes_count r.rounds)
      (member_cons _ hchecks .nil))))), rfl, rfl, rfl, docs, rfl, hreads⟩

/-! ## Times -/

/-- A time that can be measured: its seconds are below 2^64. -/
def Elapsed.Measurable (t : Elapsed) : Prop := t.nanoseconds < 2 ^ 64 * 10 ^ 9

instance (t : Elapsed) : Decidable t.Measurable := Nat.decLt _ _

theorem mem_of_mem_trimZeros {cs : List Char} {c : Char} (h : c ∈ Figure.trimZeros cs) : c ∈ cs :=
  List.mem_reverse.mp ((List.dropWhile_sublist _).subset (List.mem_reverse.mp h))

/-- **`Elapsed.exists_isText`** -- a time is written as a number. -/
theorem Elapsed.exists_isText {t : Elapsed} (h : t.Measurable) :
    ∃ x, Number.IsText (Figure.millisText t) x := by
  have hwhole : t.nanoseconds / 1000000 < 10 ^ 30 :=
    (Nat.div_le_self _ _).trans_lt (h.trans (by decide))
  have hlength : (Numeral.decimal (t.nanoseconds / 1000000)).length ≤ 30 :=
    Nat.toDigits_length 10 _ 30 (by decide) hwhole
  dsimp only [Figure.millisText]
  refine (Number.exists_read_point false hlength ?_ ?_).imp fun x hx => Number.isText_of_read hx
  · split
    case isTrue => exact List.cons_ne_nil _ _
    case isFalse hne => exact hne
  · intro c hc
    split at hc
    case isTrue => exact List.mem_singleton.mp hc ▸ rfl
    case isFalse =>
      rcases List.mem_append.mp (mem_of_mem_trimZeros hc) with hzero | hdigit
      · exact List.eq_of_mem_replicate hzero ▸ rfl
      · exact Numeral.isDigit_of_mem_decimal hdigit

/-! ## The text -/

/-- **`StressReport.text_read_back`** -- a report that was written is read as the report, if the
times in it are written as numbers; and so they are. -/
theorem StressReport.text_read_back (r : StressReport) :
    (∀ millis : Elapsed → List Char,
      (∀ c ∈ r.checks, ∃ x, Number.IsText (millis c.elapsed) x) →
        ∃ doc, Json.read (r.textWith millis) = .ok doc ∧ r.ReadAs doc) ∧
    ((∀ c ∈ r.checks, c.elapsed.Measurable) →
      ∃ doc, Json.read r.text = .ok doc ∧ r.ReadAs doc) := by
  have hany : ∀ millis : Elapsed → List Char,
      (∀ c ∈ r.checks, ∃ x, Number.IsText (millis c.elapsed) x) →
        ∃ doc, Json.read (r.textWith millis) = .ok doc ∧ r.ReadAs doc := by
    intro millis helapsed
    obtain ⟨doc, hdoc, hread⟩ := StressReport.exists_denotes 124 helapsed
    exact ⟨doc, read_pretty hdoc, hread⟩
  refine ⟨hany, fun hmeasurable => ?_⟩
  rw [← r.textWith_millisText]
  exact hany _ fun c hc => Elapsed.exists_isText (hmeasurable c hc)

/-- Counts beyond 2^53 are read exactly, whether times are written with an exponent or without. -/
theorem StressReport.text_read_back_great :
    let r : StressReport := ⟨2, 18446744073709551615, 9007199254740993,
      [⟨.weakSwapCounter, 18446744073709551614, 9007199254740993, false, ⟨150⟩,
        some 9007199254740995⟩, ⟨.handshake, 3, 3, true, ⟨2500000⟩, none⟩]⟩
    (∃ doc, Json.read (r.textWith fun _ => "1.5e-4".toList) = .ok doc ∧ r.ReadAs doc) ∧
      ∃ doc, Json.read r.text = .ok doc ∧ r.ReadAs doc := by
  intro r
  obtain ⟨hany, hwritten⟩ := StressReport.text_read_back r
  refine ⟨hany _ fun c _ => ⟨_, rfl⟩, hwritten ?_⟩
  intro c hc
  simp only [r, List.mem_cons, List.not_mem_nil, or_false] at hc
  rcases hc with rfl | rfl <;> decide

end SharedCells
