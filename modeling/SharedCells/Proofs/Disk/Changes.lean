/-
# SharedCells.Proofs.Disk.Changes -- what a change of one entry changes

A file that is written and a folder that is made are changes of one entry in one folder. Such a
change is seen at the place of the entry and below it, in what the folders above list, and nowhere
else. `Disk.ChangedAt` says this by place, of the whole disk.

* `Disk.edit_changed` : what any change of an entry changes.
* `Disk.write_ok_iff`, `Disk.ensureFolder_ok_iff` : when a file or a folder can be made.
-/

import SharedCells.Proofs.Disk.Distinct
import SharedCells.Proofs.Disk.Places

namespace SharedCells

variable {change : Edit} {entries below after : List (Name × Node)} {name : Name} {node : Node}
  {place away : List Name} {content : ByteArray}

/-! ## In the folder of the entry -/

/-- Where no folder stands there is nothing below. -/
theorem Node.find?_below {rest : List Name} (hrest : rest ≠ [])
    (hfree : ∀ below, entries.lookup name ≠ some (folder below)) :
    find? entries (name :: rest) = none := by
  cases hl : entries.lookup name with
  | none => exact find?_missing rest hl
  | some node =>
      cases node with
      | file old => rw [find?_of_file rest hl, if_neg hrest]
      | folder below => exact absurd hl (hfree below)

/-- An entry put back is the entry that was there. -/
theorem Node.put_of_lookup (h : entries.lookup name = some node) :
    put name node entries = entries := by
  induction entries with
  | nil => exact absurd h nofun
  | cons entry rest ih =>
      obtain ⟨first, old⟩ := entry
      rw [List.lookup_cons] at h
      rw [put]
      by_cases hf : first = name
      · subst hf
        rw [beq_self_eq_true] at h
        rw [if_pos rfl, Option.some.inj h]
      · rw [beq_false_of_ne (Ne.symm hf)] at h
        rw [if_neg hf, ih h]

namespace Edit

/-- An entry that is made anew has nothing below it. -/
theorem find?_below_node {rest : List Name} (hrest : rest ≠ [])
    (hl : entries.lookup name = some change.node) : Node.find? entries (name :: rest) = none := by
  cases change with
  | file _ content => rw [Node.find?_of_file rest hl, if_neg hrest]
  | folder _ =>
      obtain ⟨next, rest, rfl⟩ := List.exists_cons_of_ne_nil hrest
      rw [Node.find?_inside _ hl]
      rfl

/-- In the folder itself nothing but the entry changes. -/
theorem apply_elsewhere (h : change.apply entries = .ok after)
    (beside : ¬ away <+: [change.name]) : Node.find? after away = Node.find? entries away := by
  rcases apply_cases h with rfl | ⟨hfree, rfl⟩
  · rfl
  · cases away with
    | nil => exact absurd List.nil_prefix beside
    | cons first rest =>
        by_cases hf : first = change.name
        · subst hf
          have hrest : rest ≠ [] := by
            rintro rfl
            exact beside List.prefix_rfl
          rw [find?_below_node hrest (Node.lookup_put_self ..), Node.find?_below hrest hfree]
        · exact Node.find?_put_other entries _ rest hf

theorem apply_distinct (h : change.apply entries = .ok after) (distinct : Node.Distinct entries) :
    Node.Distinct after := by
  rcases apply_cases h with rfl | ⟨-, rfl⟩
  · exact distinct
  · cases change with
    | file name content => exact distinct.put_file name content
    | folder name => exact distinct.put_folder name Node.distinct_nil

/-- A file can be written where no folder has its name. -/
theorem file_ok_iff : (∃ after, (file name content).apply entries = .ok after) ↔
    ∀ below, entries.lookup name ≠ some (.folder below) := by
  constructor
  · rintro ⟨after, h⟩ below hl
    rw [apply, hl] at h
    cases h
  · intro hfree
    rw [apply]
    split
    case h_1 below hl => exact absurd hl (hfree below)
    case h_2 => exact ⟨_, rfl⟩

theorem file_found (h : (file name content).apply entries = .ok after) :
    after.lookup name = some (.file content) := by
  have hfree := file_ok_iff.mp ⟨after, h⟩
  rw [apply] at h
  split at h
  case h_1 below hl => exact absurd hl (hfree below)
  case h_2 =>
    rw [← Except.ok.inj h]
    exact Node.lookup_put_self ..

/-- A folder can be made where no file has its name. -/
theorem folder_ok_iff : (∃ after, (folder name).apply entries = .ok after) ↔
    ∀ content, entries.lookup name ≠ some (.file content) := by
  rw [apply]
  cases entries.lookup name with
  | none => simp
  | some node => cases node <;> simp

theorem folder_found (h : (folder name).apply entries = .ok after) :
    ∃ below, after.lookup name = some (.folder below) := by
  rw [apply] at h
  split at h
  case h_1 =>
    rw [← Except.ok.inj h]
    exact ⟨[], Node.lookup_put_self ..⟩
  case h_2 below hl =>
    rw [← Except.ok.inj h]
    exact ⟨below, hl⟩
  case h_3 => cases h

/-- A folder that is there already stays as it is. -/
theorem folder_of_found (h : entries.lookup name = some (.folder below)) :
    (folder name).apply entries = .ok entries := by
  rw [apply, h]

end Edit

/-! ## From a folder above -/

namespace Node

/-- A change takes place in a folder that is there before and after. -/
theorem edit_ok (h : edit change entries place = .ok after) :
    ∃ below inner, find? entries place = some (folder below) ∧ change.apply below = .ok inner ∧
      find? after place = some (folder inner) := by
  induction place generalizing entries after with
  | nil => exact ⟨entries, after, rfl, h, rfl⟩
  | cons first place ih =>
      obtain ⟨next, nextAfter, hl, hnext, rfl⟩ := edit_cons h
      obtain ⟨below, inner, hbelow, happly, hinner⟩ := ih hnext
      refine ⟨below, inner, ?_, happly, ?_⟩
      · rw [find?_inside place hl, hbelow]
      · rw [find?_inside place (lookup_put_self ..), hinner]

/-- A change that can be made in a folder can be made from above. -/
theorem edit_of_apply {inner : List (Name × Node)}
    (hfolder : find? entries place = some (folder below))
    (happly : change.apply below = .ok inner) :
    ∃ after, edit change entries place = .ok after := by
  induction place generalizing entries with
  | nil =>
      obtain rfl := entries_unique (find?_nil entries) hfolder
      exact ⟨inner, happly⟩
  | cons first place ih =>
      obtain ⟨next, hl, hnext⟩ := find?_cons_folder hfolder
      obtain ⟨nextAfter, hafter⟩ := ih hnext
      refine ⟨put first (folder nextAfter) entries, ?_⟩
      rw [edit, hl]
      dsimp only
      rw [hafter]
      rfl

/-- Where there is nothing to do in a folder there is nothing to do above. -/
theorem edit_of_nothing (hfolder : find? entries place = some (folder below))
    (happly : change.apply below = .ok below) : edit change entries place = .ok entries := by
  induction place generalizing entries with
  | nil =>
      obtain rfl := entries_unique (find?_nil entries) hfolder
      exact happly
  | cons first place ih =>
      obtain ⟨next, hl, hnext⟩ := find?_cons_folder hfolder
      rw [edit, hl]
      dsimp only
      rw [ih hnext]
      exact congrArg Except.ok (put_of_lookup hl)

/-- Nothing changes but the entry and the folders above it. -/
theorem edit_elsewhere (h : edit change entries place = .ok after)
    (beside : ¬ away <+: place ++ [change.name]) : find? after away = find? entries away := by
  induction place generalizing entries after away with
  | nil => exact Edit.apply_elsewhere h beside
  | cons first place ih =>
      obtain ⟨below, inner, hl, hbelow, rfl⟩ := edit_cons h
      cases away with
      | nil => exact absurd List.nil_prefix beside
      | cons other away =>
          by_cases ho : other = first
          · -- The same folder before and after: the rest of the way lies in it.
            subst ho
            rw [find?_inside away (lookup_put_self ..), find?_inside away hl]
            refine ih hbelow fun hp => beside ?_
            exact List.cons_prefix_cons.mpr ⟨rfl, hp⟩
          · exact find?_put_other entries _ away ho

theorem Distinct.edit (distinct : Distinct entries) (h : edit change entries place = .ok after) :
    Distinct after := by
  induction place generalizing entries after with
  | nil => exact Edit.apply_distinct h distinct
  | cons first place ih =>
      obtain ⟨below, inner, hl, hbelow, rfl⟩ := edit_cons h
      exact distinct.put_folder first (ih (distinct.inside hl) hbelow)

end Node

namespace Disk

variable {d e f : Disk}

/-! ## Changes at one place -/

/-- **`ChangedAt`** -- the disks differ at most in what stands at a place and below it, and in that
the folders above list it. -/
structure ChangedAt (d : Disk) (place : List Name) (after : Disk) : Prop where
  elsewhere : ∀ away, ¬ away <+: place → after.node? away = d.node? away
  here : after.here = d.here
  distinct : d.Distinct → after.Distinct

theorem ChangedAt.refl (d : Disk) (place : List Name) : d.ChangedAt place d :=
  ⟨fun _ _ => rfl, rfl, fun h => h⟩

/-- Changes along one way down are a change at its end. -/
theorem ChangedAt.trans {above : List Name} (hde : d.ChangedAt above e)
    (hef : e.ChangedAt place f) (h : above <+: place) : d.ChangedAt place f where
  elsewhere away beside := by
    have : ¬ away <+: above := fun haway => beside (haway.trans h)
    rw [hef.elsewhere away beside, hde.elsewhere away this]
  here := hef.here.trans hde.here
  distinct hd := hef.distinct (hde.distinct hd)

/-! ## One entry -/

theorem edit_root (h : d.edit place change = .ok e) :
    Node.edit change d.root place = .ok e.root ∧ e.here = d.here := by
  rw [edit] at h
  split at h
  case h_1 => exact absurd h nofun
  case h_2 root hroot =>
    obtain rfl := Except.ok.inj h
    exact ⟨hroot, rfl⟩

theorem edit_of_root {root : List (Name × Node)} (h : Node.edit change d.root place = .ok root) :
    ∃ stands, d.edit place change = .ok ⟨root, d.here, stands⟩ := by
  refine ⟨Node.edit_keeps h d.stands, ?_⟩
  rw [edit]
  split
  case h_1 error herror =>
    rw [h] at herror
    exact absurd herror nofun
  case h_2 other hother =>
    rw [h] at hother
    obtain rfl := Except.ok.inj hother
    rfl

/-- **`edit_changed`** -- a change of an entry is a change at its place. -/
theorem edit_changed (h : d.edit place change = .ok e) :
    d.ChangedAt (place ++ [change.name]) e where
  elsewhere _ beside := Node.edit_elsewhere (edit_root h).1 beside
  here := (edit_root h).2
  distinct hd := Node.Distinct.edit hd (edit_root h).1

/-- In a folder that is there a change succeeds exactly if the folder admits it. -/
theorem edit_ok_iff (hfolder : d.node? place = some (.folder below)) :
    (∃ e, d.edit place change = .ok e) ↔ ∃ inner, change.apply below = .ok inner := by
  constructor
  · rintro ⟨e, h⟩
    obtain ⟨found, inner, hfound, happly, -⟩ := Node.edit_ok (edit_root h).1
    obtain rfl := Node.entries_unique hfolder hfound
    exact ⟨inner, happly⟩
  · rintro ⟨inner, happly⟩
    obtain ⟨root, hroot⟩ := Node.edit_of_apply hfolder happly
    obtain ⟨stands, h⟩ := edit_of_root hroot
    exact ⟨_, h⟩

/-! ## Writing a file -/

theorem write_concat (d : Disk) (place : List Name) (name : Name) (content : ByteArray) :
    d.write (place ++ [name]) content = d.edit place (.file name content) := by
  rw [write, List.getLast?_concat, List.dropLast_concat]

theorem write_found (h : d.write (place ++ [name]) content = .ok e) :
    e.node? (place ++ [name]) = some (.file content) := by
  rw [write_concat] at h
  obtain ⟨below, inner, -, happly, hinner⟩ := Node.edit_ok (edit_root h).1
  exact Node.find?_concat_iff.mpr ⟨inner, hinner, Edit.file_found happly⟩

theorem write_changed (h : d.write (place ++ [name]) content = .ok e) :
    d.ChangedAt (place ++ [name]) e := by
  rw [write_concat] at h
  exact edit_changed h

/-- When a file can be written. -/
theorem write_ok_iff (d : Disk) (place : List Name) (name : Name) (content : ByteArray) :
    (∃ e, d.write (place ++ [name]) content = .ok e) ↔
      d.FolderAt place ∧ ¬ d.FolderAt (place ++ [name]) := by
  have hfree {below} (hbelow : d.node? place = some (.folder below)) :
      ¬ d.FolderAt (place ++ [name]) ↔ ∀ found, below.lookup name ≠ some (.folder found) := by
    constructor
    · intro h found hl
      exact h ⟨found, Node.find?_concat_iff.mpr ⟨below, hbelow, hl⟩⟩
    · rintro h ⟨found, hfound⟩
      obtain ⟨other, hother, hl⟩ := Node.find?_concat_iff.mp hfound
      obtain rfl := Node.entries_unique hbelow hother
      exact h found hl
  rw [write_concat]
  constructor
  · rintro ⟨e, h⟩
    obtain ⟨below, inner, hbelow, happly, -⟩ := Node.edit_ok (edit_root h).1
    exact ⟨⟨below, hbelow⟩, (hfree hbelow).mpr (Edit.file_ok_iff.mp ⟨inner, happly⟩)⟩
  · rintro ⟨⟨below, hbelow⟩, h⟩
    exact (edit_ok_iff hbelow).mpr (Edit.file_ok_iff.mpr ((hfree hbelow).mp h))

/-! ## Making a folder -/

/-- When a folder can be made. -/
theorem ensureFolder_ok_iff :
    (∃ e, d.ensureFolder name = .ok e) ↔ ∀ content, d.find? [name] ≠ some (.file content) := by
  obtain ⟨below, hbelow⟩ := d.stands
  rw [ensureFolder, edit_ok_iff hbelow, Edit.folder_ok_iff, find?, node?,
    Node.find?_append [name] hbelow, Node.find?_singleton]

/-- A folder that is there already stays as it is. -/
theorem ensureFolder_of_found (h : d.find? [name] = some (.folder below)) :
    d.ensureFolder name = .ok d := by
  obtain ⟨above, habove, hl⟩ := Node.find?_concat_iff.mp h
  obtain ⟨stands, hedit⟩ :=
    edit_of_root (Node.edit_of_nothing habove (Edit.folder_of_found hl))
  exact hedit

theorem ensureFolder_found (h : d.ensureFolder name = .ok e) :
    ∃ below, e.find? [name] = some (.folder below) := by
  obtain ⟨below, inner, -, happly, hinner⟩ := Node.edit_ok (edit_root h).1
  obtain ⟨made, hmade⟩ := Edit.folder_found happly
  refine ⟨made, ?_⟩
  rw [find?, (edit_root h).2]
  exact Node.find?_concat_iff.mpr ⟨inner, hinner, hmade⟩

theorem ensureFolder_changed (h : d.ensureFolder name = .ok e) : d.ChangedAt (d.here ++ [name]) e :=
  edit_changed h

end Disk

end SharedCells
