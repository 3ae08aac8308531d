import Mathlib.Data.List.Dedup
import TemplateSuite.Proofs.FileSystem.Acceptable
import TemplateSuite.Proofs.FileSystem.Canonical
import TemplateSuite.Proofs.Text.Bytes

namespace TemplateSuite.FileSystem

variable {fs : FileSystem} {place : Location} {file path : Text} {files : List Text}

/-- The locations of the regular files. -/
def regularFiles (fs : FileSystem) : List Location :=
  ((fs.entries.map Prod.fst).filter fun place => (fs.entryAt place).any Entry.isFile).dedup

theorem mem_regularFiles_iff :
    place ∈ fs.regularFiles ↔ ∃ content executable,
      fs.entryAt place = some (.file content executable) := by
  rw [regularFiles, List.mem_dedup, List.mem_filter]
  constructor
  · rintro ⟨-, hfile⟩
    cases hentry : fs.entryAt place with
    | none =>
        rw [hentry] at hfile
        cases hfile
    | some entry =>
        cases entry with
        | file content executable => exact ⟨content, executable, rfl⟩
        | directory | link =>
            rw [hentry] at hfile
            cases hfile
  · rintro ⟨content, executable, hentry⟩
    have hne : place ≠ [] := by
      rintro rfl
      cases hentry
    exact ⟨List.mem_map_of_mem (mem_entries hne hentry), by rw [hentry]; rfl⟩

/-- The working directory is there, and the way to it is given by names. -/
structure HasWorkingDirectory (fs : FileSystem) : Prop where
  named : fs.NamedHere
  isDirectory : fs.entryAt fs.workingDirectory = some .directory

/-- The path is the canonical one of a file that can be read. -/
def CanOpen (fs : FileSystem) (file : Text) : Prop :=
  ∃ path text, fs.canonicalPath path = .ok file ∧ fs.readText file = .ok text

theorem CanOpen.exists_regularFile (h : fs.CanOpen file) (hhere : fs.HasWorkingDirectory) :
    ∃ place ∈ fs.regularFiles, place.toPath = file := by
  obtain ⟨path, text, hfile, htext⟩ := h
  cases hstatus : fs.status true file with
  | error fault =>
      rw [readText, hstatus] at htext
      cases htext
  | ok found =>
      obtain ⟨place, entry⟩ := found
      have hstart : fs.entryAt (startOf fs.workingDirectory path) = some .directory := by
        unfold startOf
        split
        · exact entryAt_root fs
        · exact hhere.isDirectory
      obtain ⟨hplace, hleads⟩ := leadsTo_of_canonicalPath hhere.named (.inl hstart) hfile hstatus
      have hentry : fs.entryAt place = some entry := hleads.entryAt_arrival (.inl hstart)
      refine ⟨place, mem_regularFiles_iff.mpr ?_, hplace⟩
      rw [readText, hstatus] at htext
      cases entry with
      | file content executable => exact ⟨content, executable, hentry⟩
      | directory => cases htext
      | link target => cases htext

/-- Distinct files that can be opened are at distinct locations. -/
theorem length_le_regularFiles (hnodup : files.Nodup) (hopen : ∀ file ∈ files, fs.CanOpen file)
    (hhere : fs.HasWorkingDirectory) : files.length ≤ fs.regularFiles.length := by
  have hsubset : files ⊆ fs.regularFiles.map Location.toPath := fun file hfile => by
    obtain ⟨place, hplace, rfl⟩ := (hopen file hfile).exists_regularFile hhere
    exact List.mem_map_of_mem hplace
  have hlength := (hnodup.subperm hsubset).length_le
  rwa [List.length_map] at hlength

theorem length_lt_of_canOpen (hnodup : files.Nodup) (hopen : ∀ file ∈ files, fs.CanOpen file) :
    files.length < 256 ^ (maxPathBytes + 1) := by
  refine Text.length_lt_of_byteCount_le hnodup fun file hfile => ?_
  obtain ⟨path, text, -, htext⟩ := hopen file hfile
  exact (checkPath_eq_ok_iff.mp (checkPath_of_readText htext)).2.2

end TemplateSuite.FileSystem
