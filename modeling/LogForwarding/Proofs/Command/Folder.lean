/-
# Folders are storages

A folder is a storage whose files are told by the text of their location. A
write that succeeds replaces the whole file at the location to which the path
leads, as long as no device is there: what is written to a device is not kept.
That the same path still leads there after the write is the point of the proof;
a write makes folders and files and takes none away, and a file is no folder.

Key definitions: `Command.Folder.storage`, `Command.Folder.Plain`,
`Command.Folder.LeadsTo`.
Key theorems: `Command.Program.runIn_eq_runOn`, `Command.Folder.follow_insert`,
`Command.Folder.replacesAt`.
-/
import LogForwarding.Command.Folder
import LogForwarding.Proofs.Command.Storage

namespace LogForwarding.Command

namespace Folder

/-- Folders of files, as a program sees them. -/
def storage : Storage Folder where
  File := String
  content folder place := folder[place]?
  read folder path := (folder.read path).mapError FileFault.message
  write folder path text := (folder.write path text.toUTF8).mapError FileFault.message

/-- The path does not lead to a device. -/
def Plain (folder : Folder) (path : String) : Prop :=
  ∀ p location, spelled path = .ok p → folder.follow p.start p.names = .ok location →
    Device.ofText? location.text = none

end Folder

/-- To run in a folder is to run on the storage that folders are. -/
theorem Program.runIn_eq_runOn {α : Type} (folder : Folder) (program : Program α) :
    program.runIn folder = program.runOn Folder.storage folder := by
  induction program generalizing folder with
  | done value => rfl
  | read path next ih => exact ih _ folder
  | write path text next ih =>
    rw [Program.runIn, Program.runOn]
    have hwrite : Folder.storage.write folder path text =
        (folder.write path text.toUTF8).mapError FileFault.message := rfl
    rw [hwrite]
    cases folder.write path text.toUTF8 with
    | ok after => exact ih (.ok ()) after
    | error fault => exact ih (.error fault.message) folder

namespace Folder

variable {folder after : Folder} {location target : Location} {place path : String}
  {bytes : ByteArray}

/-! ### What a new file changes -/

/-- A folder that is always there, or that a file lies in. -/
theorem isFolder_iff :
    folder.isFolder location = true ↔
      (location.all (· == "..") || location == Location.root ||
        decide (location.text ∈ systemFolders)) = true ∨
      ∃ place, place ∈ folder ∧ (location.text ++ "/").toList <+: place.toList := by
  unfold isFolder
  rw [Bool.or_eq_true, List.any_eq_true]
  simp only [Std.ExtTreeMap.mem_keys, String.startsWith_string_iff]

/-- A new file takes no folder away. -/
theorem isFolder_insert (h : folder.isFolder location = true) :
    isFolder (folder.insert place bytes) location = true := by
  rw [isFolder_iff] at h ⊢
  apply h.imp_right
  rintro ⟨other, hmem, hprefix⟩
  exact ⟨other, Std.ExtTreeMap.mem_insert.2 (.inr hmem), hprefix⟩

/-- A new file does not make a folder of its own location. -/
theorem isFolder_insert_text (h : folder.isFolder location = false) :
    isFolder (folder.insert location.text bytes) location = false := by
  rw [← Bool.not_eq_true, isFolder_iff] at h ⊢
  rintro (halways | ⟨other, hmem, hprefix⟩)
  · exact h (.inl halways)
  · obtain heq | hmem := Std.ExtTreeMap.mem_insert.1 hmem
    · have hother : location.text = other := Std.LawfulEqCmp.eq_of_compare heq
      have hlength := hprefix.length_le
      rw [← hother, String.toList_append, List.length_append] at hlength
      have hslash : "/".toList.length = 1 := rfl
      omega
    · exact h (.inr ⟨other, hmem, hprefix⟩)

/-- A way that can be followed can still be followed when there is a new file. -/
theorem follow_insert {names : List String} (h : folder.follow location names = .ok target) :
    follow (folder.insert place bytes) location names = .ok target := by
  induction names generalizing location with
  | nil => exact h
  | cons name rest ih =>
    unfold follow at h ⊢
    by_cases hfolder : folder.isFolder location = true
    · rw [if_pos hfolder] at h
      rw [if_pos (isFolder_insert hfolder)]
      cases hstep : step location name with
      | error fault =>
        rw [hstep] at h
        cases h
      | ok next =>
        rw [hstep] at h
        exact ih h
    · rw [if_neg hfolder] at h
      split at h <;> cases h

/-- A way that ends with a point leads to a folder. -/
theorem isFolder_of_follow_point {names : List String}
    (h : folder.follow location (names ++ ["."]) = .ok target) : folder.isFolder target = true := by
  induction names generalizing location with
  | nil =>
    by_cases hfolder : folder.isFolder location = true
    · simp only [List.nil_append, follow, if_pos hfolder, step, if_true, Except.ok.injEq] at h
      exact h ▸ hfolder
    · rw [List.nil_append, follow, if_neg hfolder] at h
      split at h <;> cases h
  | cons name rest ih =>
    rw [List.cons_append, follow] at h
    split at h
    · split at h
      · cases h
      · exact ih h
    · split at h <;> cases h

/-! ### Paths to plain files -/

/-- The path leads to a place for a file that is neither a folder nor a device. -/
structure LeadsTo (folder : Folder) (path : String) (location : Location) : Prop where
  /-- The path spells a way to the location, and not to a folder there. -/
  way : ∃ p, spelled path = .ok p ∧ p.toFolder = false ∧
    folder.follow p.start p.names = .ok location
  noFolder : folder.isFolder location = false
  noDevice : Device.ofText? location.text = none

/-- A path still leads to its place when there is a file. -/
theorem LeadsTo.insert (h : folder.LeadsTo path location) :
    LeadsTo (folder.insert location.text bytes) path location := by
  obtain ⟨⟨p, hp, hto, hfollow⟩, hfolder, hdevice⟩ := h
  exact ⟨⟨p, hp, hto, follow_insert hfollow⟩, isFolder_insert_text hfolder, hdevice⟩

/-- The file at the location of a path is read at the path. -/
theorem LeadsTo.read_eq (h : folder.LeadsTo path location)
    (hbytes : folder[location.text]? = some bytes) : folder.read path = .ok bytes := by
  obtain ⟨⟨p, hp, hto, hfollow⟩, hfolder, hdevice⟩ := h
  have hfile : folder.isFile location = true := by
    have hmem : location.text ∈ folder := by
      rw [Std.ExtTreeMap.mem_iff_isSome_getElem?, hbytes]
      rfl
    rw [isFile, decide_eq_true hmem, Bool.or_true]
  simp [read, bind, Except.bind, hp, hfollow, hfolder, hfile, hto, hdevice, hbytes, pure,
    Except.pure]

/-- A file is written at the location of the path, except among processes. -/
theorem LeadsTo.write_eq (h : folder.LeadsTo path location)
    (hprocess : location.text.startsWith "/proc/" = false) :
    folder.write path bytes = .ok (folder.insert location.text bytes) := by
  obtain ⟨⟨p, hp, hto, hfollow⟩, hfolder, hdevice⟩ := h
  simp [write, bind, Except.bind, hp, hfollow, hfolder, hto, hdevice, hprocess, pure, Except.pure]

/-- A write that succeeds has put the bytes at the place to which the path leads, unless it leads
to a device. -/
theorem exists_leadsTo_of_write (hplain : folder.Plain path)
    (h : folder.write path bytes = .ok after) :
    ∃ location, folder.LeadsTo path location ∧ after = folder.insert location.text bytes := by
  simp only [write, bind, Except.bind] at h
  split at h
  · cases h
  · rename_i p hp
    split at h
    · cases h
    · rename_i location hfollow
      split at h
      · cases h
      · rename_i hfolder
        have hto : p.toFolder = false := by
          by_contra hto
          rw [Bool.not_eq_false] at hto
          rw [if_pos hto] at hfollow
          exact hfolder (isFolder_of_follow_point hfollow)
        rw [if_neg (by simp [hto])] at hfollow
        have hdevice := hplain p location hp hfollow
        rw [hdevice] at h
        dsimp only at h
        split at h
        · cases h
        · cases h
          exact ⟨location, ⟨⟨p, hp, hto, hfollow⟩, by simpa using hfolder, hdevice⟩, rfl⟩

/-- **A write in a folder replaces the whole of one file**, unless its path leads to a device. -/
theorem replacesAt (hplain : folder.Plain path) : storage.ReplacesAt folder path := by
  intro text after hwrite
  obtain ⟨location, hleads, rfl⟩ := exists_leadsTo_of_write hplain (mapError_eq_ok_iff.1 hwrite)
  have hself : (folder.insert location.text text.toUTF8)[location.text]? = some text.toUTF8 :=
    Std.ExtTreeMap.getElem?_insert_self
  refine ⟨mapError_eq_ok_iff.2 (hleads.insert.read_eq hself), location.text, hself, ?_⟩
  intro (other : String) hother
  have hne : location.text ≠ other := fun heq => hother heq.symm
  show (folder.insert location.text text.toUTF8)[other]? = folder[other]?
  rw [Std.ExtTreeMap.getElem?_insert, if_neg (by simpa using hne)]

end Folder

end LogForwarding.Command
