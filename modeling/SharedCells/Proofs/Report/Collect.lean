/-
# SharedCells.Proofs.Report.Collect -- what the measurements say, and when they say nothing

`countedRate?` reads a rate off the two files of a measurement as one would on paper: a positive
mean time, and the elements of a pass if the other file names them. A sample that is `Readable`
shows exactly this rate, and a sample that is not is an error. So the table of the walk is the
table of the rates, or there is none: `collect_readable` and `collect_unreadable`.
-/

import SharedCells.Proofs.Report.Table
import SharedCells.Proofs.Report.Walk

namespace SharedCells

theorem Binary64.lt_self (x : Binary64) : x.lt x = false := by
  cases x with
  | nan => rfl
  | infinite s => cases s <;> rfl
  | finite s m e => exact decide_eq_false (Rat.lt_irrefl)

namespace Report

/-! ## Reading a measurement -/

/-- **`documentOf?`** -- the document that a file is, if it is text and JSON. -/
def documentOf? (content : ByteArray) : Option (Json Json.Number) :=
  (String.fromUTF8? content).bind fun text => (Json.read text).toOption

/-- The mean time that a document names, if it is a number. -/
def pointEstimate? (doc : Json Json.Number) : Option Binary64 := do
  let mean ← doc.get? "mean"
  let estimate ← mean.get? "point_estimate"
  let number ← estimate.number?
  some number.toBinary64

/-- The elements of a pass that a document names, if they are a number. -/
def declaredElements? (doc : Json Json.Number) : Option Binary64 := do
  let throughput ← doc.get? "throughput"
  let elements ← throughput.get? "Elements"
  let number ← elements.number?
  some number.toBinary64

/-- **`elementsFrom`** -- the elements of a pass: those that the text declares, and else one. -/
def elementsFrom (benchmark : Option String) : Binary64 :=
  let doc? := benchmark.bind fun text => (Json.read text).toOption
  (doc?.bind declaredElements?).getD (.ofNat 1)

/-- **`countedRate?`** -- the rate that a measurement counts for. It counts if it names a positive
mean time. -/
def countedRate? (benchmark : Option String) (estimates : ByteArray) : Option Binary64 := do
  let doc ← documentOf? estimates
  let time ← pointEstimate? doc
  if (Binary64.ofNat 0).lt time then some (rateOf (elementsFrom benchmark) time) else none

namespace Sample

theorem timeIn_eq (doc : Json Json.Number) :
    timeIn doc = (pointEstimate? doc).getD (.ofNat 0) := by
  simp only [timeIn, pointEstimate?, Option.bind_eq_bind]
  cases doc.get? "mean" with
  | none => rfl
  | some mean =>
      simp only [Option.bind_some]
      cases mean.get? "point_estimate" with
      | none => rfl
      | some estimate => cases estimate <;> rfl

theorem elementsIn_eq (doc : Json Json.Number) :
    elementsIn doc = (declaredElements? doc).getD (.ofNat 1) := by
  simp only [elementsIn, declaredElements?, Option.bind_eq_bind]
  cases doc.get? "throughput" with
  | none => rfl
  | some throughput =>
      simp only [Option.bind_some]
      cases throughput.get? "Elements" with
      | none => rfl
      | some elements => cases elements <;> rfl

/-- **`Readable`** -- are the estimates JSON, and the other file too if it is text? -/
def Readable (s : Sample) : Prop :=
  documentOf? s.estimates ≠ none ∧ ∀ text, s.benchmark = some text → (Json.read text).isOk = true

/-- The row that a sample adds to the table. -/
def row? (s : Sample) : Option Row :=
  (countedRate? s.benchmark s.estimates).map fun rate => ⟨s.group, s.function, rate⟩

variable {s : Sample}

theorem time_of_document {doc : Json Json.Number} (h : documentOf? s.estimates = some doc) :
    s.time = .ok (timeIn doc) := by
  obtain ⟨text, htext, hread⟩ := Option.bind_eq_some_iff.mp h
  rw [time, htext]
  dsimp only [parse]
  cases hdoc : Json.read text with
  | error fault => rw [hdoc] at hread; exact absurd hread nofun
  | ok other =>
      rw [hdoc] at hread
      rw [← Option.some.inj hread]
      rfl

theorem time_of_no_document (h : documentOf? s.estimates = none) : ∃ e, s.time = .error e := by
  rw [time]
  cases htext : String.fromUTF8? s.estimates with
  | none => exact ⟨_, rfl⟩
  | some text =>
      rw [documentOf?, htext, Option.bind_some] at h
      dsimp only [parse]
      cases hdoc : Json.read text with
      | error fault => exact ⟨_, rfl⟩
      | ok doc => rw [hdoc] at h; exact absurd h nofun

theorem elements_of_readable (h : s.Readable) : s.elements = .ok (elementsFrom s.benchmark) := by
  rw [elements]
  cases hb : s.benchmark with
  | none => rfl
  | some text =>
      have hok := h.2 text hb
      dsimp only [parse]
      cases hdoc : Json.read text with
      | error fault => rw [hdoc] at hok; exact absurd hok nofun
      | ok doc =>
          have : elementsFrom (some text) = elementsIn doc := by
            rw [elementsIn_eq, elementsFrom, Option.bind_some, hdoc]
            rfl
          rw [this]
          rfl

theorem elements_of_unreadable {text : String} (hb : s.benchmark = some text)
    (h : (Json.read text).isOk = false) : ∃ e, s.elements = .error e := by
  rw [elements, hb]
  dsimp only [parse]
  cases hdoc : Json.read text with
  | error fault => exact ⟨_, rfl⟩
  | ok doc => rw [hdoc] at h; exact absurd h nofun

/-- A sample that can be read shows the rate that it counts for, if it counts. -/
theorem rate?_of_readable (h : s.Readable) :
    s.rate? = .ok (countedRate? s.benchmark s.estimates) := by
  obtain ⟨doc, hdoc⟩ := Option.ne_none_iff_exists'.mp h.1
  have hcounted : countedRate? s.benchmark s.estimates = (pointEstimate? doc).bind fun time =>
      if (Binary64.ofNat 0).lt time then some (rateOf (elementsFrom s.benchmark) time)
      else none := by
    rw [countedRate?, hdoc]
    rfl
  rw [rate?, elements_of_readable h, time_of_document hdoc, timeIn_eq, hcounted]
  cases pointEstimate? doc with
  | none =>
      -- No time is the time zero, which is not positive.
      show Except.ok (if (Binary64.ofNat 0).lt (.ofNat 0) then _ else none) = Except.ok none
      rw [Binary64.lt_self]
      rfl
  | some time => rfl

theorem rate?_of_unreadable (h : ¬ s.Readable) : ∃ e, s.rate? = .error e := by
  rw [rate?]
  cases he : s.elements with
  | error e => exact ⟨e, rfl⟩
  | ok n =>
      -- The other file is no obstacle, so the estimates are.
      have hdoc : documentOf? s.estimates = none := by
        by_contra hdoc
        refine h ⟨hdoc, fun text hb => ?_⟩
        by_contra hok
        obtain ⟨e, herror⟩ := elements_of_unreadable hb (Bool.eq_false_iff.mpr hok)
        rw [herror] at he
        exact absurd he nofun
      obtain ⟨e, htime⟩ := time_of_no_document hdoc
      rw [htime]
      exact ⟨e, rfl⟩

end Sample

/-! ## The table of all measurements -/

variable {s : Sample}

theorem add_of_readable (table : Table) (h : s.Readable) :
    add table s = .ok (s.row?.toList.foldl (fun t row => t.insert row) table) := by
  rw [add, Sample.rate?_of_readable h, Sample.row?]
  cases countedRate? s.benchmark s.estimates with
  | none => rfl
  | some rate => rfl

theorem add_of_unreadable (table : Table) (h : ¬ s.Readable) : ∃ e, add table s = .error e := by
  obtain ⟨e, hrate⟩ := Sample.rate?_of_unreadable h
  rw [add, hrate]
  exact ⟨e, rfl⟩

theorem foldlM_add_of_readable (samples : List Sample) (table : Table)
    (h : ∀ s ∈ samples, s.Readable) :
    samples.foldlM add table =
      .ok ((samples.filterMap Sample.row?).foldl (fun t row => t.insert row) table) := by
  induction samples generalizing table with
  | nil => rfl
  | cons s samples ih =>
      obtain ⟨hs, hrest⟩ := List.forall_mem_cons.mp h
      -- The first sample adds its row, if it has one, and the others go on from there.
      rw [List.foldlM_cons, add_of_readable table hs]
      show List.foldlM add _ samples = _
      rw [ih _ hrest, List.filterMap_cons]
      cases s.row? with
      | none => rfl
      | some row => rfl

/-- One unreadable sample is enough, wherever it comes in the walk. -/
theorem foldlM_add_of_unreadable {samples : List Sample} (table : Table) (hs : s ∈ samples)
    (h : ¬ s.Readable) : ∃ e, samples.foldlM add table = .error e := by
  induction samples generalizing table with
  | nil => exact absurd hs nofun
  | cons first samples ih =>
      rw [List.foldlM_cons]
      by_cases hfirst : first.Readable
      · rw [add_of_readable table hfirst]
        show ∃ e, List.foldlM add _ samples = .error e
        rcases List.mem_cons.mp hs with rfl | hs
        · exact absurd hfirst h
        · exact ih _ hs
      · obtain ⟨e, hadd⟩ := add_of_unreadable table hfirst
        rw [hadd]
        exact ⟨e, rfl⟩

/-- **`tableOf`** -- the table of the rows that the samples add, in the order of the walk. -/
def tableOf (entries : List (Name × Node)) : Table :=
  Table.ofRows ((samplesIn entries).filterMap Sample.row?)

theorem collect_readable {entries : List (Name × Node)}
    (h : ∀ s ∈ samplesIn entries, s.Readable) : collect entries = .ok (tableOf entries) :=
  foldlM_add_of_readable _ [] h

theorem collect_unreadable {entries : List (Name × Node)} (hs : s ∈ samplesIn entries)
    (h : ¬ s.Readable) : ∃ e, collect entries = .error e :=
  foldlM_add_of_unreadable [] hs h

end Report

end SharedCells
