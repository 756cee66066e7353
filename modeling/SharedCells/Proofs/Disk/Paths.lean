/-
# SharedCells.Proofs.Disk.Paths -- files written by path

A path that means the place of a file leads to a folder that is there, and the file is an entry of
it. So a text can be written to a path exactly if the path means such a place and no folder stands
there; what the text is does not matter. Where it is written nothing changes but that one file.

* `Disk.locate_folder` : where a path leads.
* `Disk.writeText_of_writable`, `Disk.writeText_of_not_writable` : what becomes of a text.
-/

import SharedCells.Disk.Path
import SharedCells.Proofs.Disk.Changes

namespace SharedCells

namespace Disk

variable {d e : Disk} {path : Path} {place : List Name} {content : ByteArray}

/-! ## Where a path leads -/

/-- A path starts from a folder. -/
theorem startOf_folder (d : Disk) (path : Path) : d.FolderAt (d.startOf path) := by
  rw [startOf]
  split
  case isTrue => exact Node.folderAt_nil d.root
  case isFalse => exact d.stands

/-- Names that can be followed from a folder lead to a folder. -/
theorem follow_folder {reached folder names : List Name}
    (hfollow : d.follow reached names = .ok folder) (hreached : d.FolderAt reached.reverse) :
    d.FolderAt folder.reverse := by
  induction names generalizing reached with
  | nil =>
      rw [follow, Except.ok.injEq] at hfollow
      rw [← hfollow]
      exact hreached
  | cons name rest ih =>
      rw [follow] at hfollow
      split at hfollow
      case isTrue => exact ih hfollow hreached
      case isFalse =>
        split at hfollow
        case isTrue =>
          obtain ⟨below, hbelow⟩ := hreached
          refine ih hfollow (Node.folder_of_prefix hbelow ?_)
          rw [List.reverse_prefix]
          exact List.tail_suffix reached
        case isFalse =>
          split at hfollow
          case isTrue => exact absurd hfollow nofun
          case isFalse =>
            split at hfollow
            case h_1 | h_2 => exact absurd hfollow nofun
            case h_3 below hbelow => exact ih hfollow ⟨below, hbelow⟩

/-- A path leads to an entry of a folder that is there. -/
theorem locate_folder (h : d.locate path = .ok place) :
    ∃ above name, place = above ++ [name] ∧ d.FolderAt above := by
  rw [locate] at h
  split at h
  case isTrue => exact absurd h nofun
  split at h
  case isTrue => exact absurd h nofun
  split at h
  case isTrue => exact absurd h nofun
  split at h
  case h_1 => exact absurd h nofun
  case h_2 last before _ =>
    cases hfollow : d.follow (d.startOf path).reverse before.reverse with
    | error error =>
        rw [hfollow] at h
        exact absurd h nofun
    | ok folder =>
        rw [hfollow] at h
        dsimp only [bind, Except.bind] at h
        split at h
        case isTrue => exact absurd h nofun
        split at h
        case isTrue => exact absurd h nofun
        obtain rfl := Except.ok.inj h
        have hstart : d.FolderAt (d.startOf path).reverse.reverse := by
          rw [List.reverse_reverse]
          exact d.startOf_folder path
        exact ⟨folder.reverse, last, List.reverse_cons, follow_folder hfollow hstart⟩

/-! ## One file changes -/

/-- **`SameBut d place e`** -- the disks have the same folders, and the same files with the same
content except at that place. -/
structure SameBut (d : Disk) (place : List Name) (e : Disk) : Prop where
  files : ∀ away content, away ≠ place →
    (e.node? away = some (.file content) ↔ d.node? away = some (.file content))
  folders : ∀ away, e.FolderAt away ↔ d.FolderAt away
  here : e.here = d.here

/-- Above a place where something stands there are folders. -/
theorem folderAt_above {above : List Name} {node : Node} (h : d.node? place = some node)
    (hleads : above <+: place) (hne : above ≠ place) : d.FolderAt above := by
  obtain ⟨rest, rfl⟩ := hleads
  rcases List.eq_nil_or_concat rest with rfl | ⟨front, name, rfl⟩
  · rw [List.append_nil] at hne
    exact absurd rfl hne
  · rw [List.concat_eq_append, ← List.append_assoc] at h
    obtain ⟨below, hbelow, -⟩ := Node.folder_above h
    exact Node.folder_of_prefix hbelow (List.prefix_append above front)

theorem FolderAt.not_file {away : List Name} (h : d.FolderAt away) :
    d.node? away ≠ some (.file content) := by
  obtain ⟨below, hbelow⟩ := h
  rw [hbelow]
  exact nofun

/-- A file that is written into a folder changes nothing else. -/
theorem write_sameBut {name : Name} {above : List Name} (hfolder : d.FolderAt above)
    (hfree : ¬ d.FolderAt (above ++ [name])) (h : d.write (above ++ [name]) content = .ok e) :
    d.SameBut (above ++ [name]) e := by
  have hfound := write_found h
  have helsewhere := (write_changed h).elsewhere
  -- The folders on the way are there before and after.
  have hway : ∀ away, away <+: above ++ [name] → away ≠ above ++ [name] →
      d.FolderAt away ∧ e.FolderAt away := by
    intro away hleads hne
    refine ⟨?_, folderAt_above hfound hleads hne⟩
    obtain ⟨below, hbelow⟩ := hfolder
    refine Node.folder_of_prefix hbelow ?_
    rcases List.prefix_concat_iff.mp hleads with heq | hbefore
    · exact absurd heq hne
    · exact hbefore
  constructor
  · intro away old hne
    by_cases hleads : away <+: above ++ [name]
    · obtain ⟨hbefore, hafter⟩ := hway away hleads hne
      exact ⟨fun hfile => absurd hfile hafter.not_file, fun hfile => absurd hfile hbefore.not_file⟩
    · rw [helsewhere away hleads]
  · intro away
    by_cases hleads : away <+: above ++ [name]
    · by_cases hne : away = above ++ [name]
      · subst hne
        exact ⟨fun hafter => absurd hfound hafter.not_file, fun hbefore => absurd hbefore hfree⟩
      · obtain ⟨hbefore, hafter⟩ := hway away hleads hne
        exact ⟨fun _ => hbefore, fun _ => hafter⟩
    · rw [FolderAt, FolderAt, helsewhere away hleads]
  · exact (write_changed h).here

/-! ## Texts -/

/-- **`Writable`** -- the path means the place of a file, and no folder stands there. -/
def Writable (d : Disk) (path : Path) : Prop :=
  ∃ place, d.locate path = .ok place ∧ ¬ d.FolderAt place

theorem writeText_of_located (h : d.locate path = .ok place) (text : String) :
    d.writeText path text = d.write place text.toUTF8 := by
  rw [writeText, h]
  rfl

/-- Any text can be written to a writable path, and that changes one file. -/
theorem writeText_of_writable (h : d.Writable path) (text : String) :
    ∃ place after, d.locate path = .ok place ∧ d.writeText path text = .ok after ∧
      after.node? place = some (.file text.toUTF8) ∧ d.SameBut place after := by
  obtain ⟨place, hplace, hfree⟩ := h
  obtain ⟨above, name, rfl, hfolder⟩ := locate_folder hplace
  have hwrite := writeText_of_located hplace text
  obtain ⟨after, hresult⟩ := (write_ok_iff d above name text.toUTF8).mpr ⟨hfolder, hfree⟩
  rw [hresult] at hwrite
  exact ⟨_, after, hplace, hwrite, write_found hresult, write_sameBut hfolder hfree hresult⟩

/-- No text can be written to any other path. -/
theorem writeText_of_not_writable (h : ¬ d.Writable path) (text : String) :
    ∃ error, d.writeText path text = .error error := by
  cases hplace : d.locate path with
  | error error =>
      refine ⟨error, ?_⟩
      rw [writeText, hplace]
      rfl
  | ok place =>
      rw [writeText_of_located hplace]
      obtain ⟨above, name, rfl, -⟩ := locate_folder hplace
      cases hresult : d.write (above ++ [name]) text.toUTF8 with
      | error error => exact ⟨error, rfl⟩
      | ok after =>
          have hfits := (write_ok_iff d above name text.toUTF8).mp ⟨after, hresult⟩
          exact absurd ⟨_, hplace, hfits.2⟩ h

end Disk

end SharedCells
