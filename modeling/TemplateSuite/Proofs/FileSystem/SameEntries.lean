import TemplateSuite.Proofs.FileSystem.RemoveTree

/-!
Entries are all that counts. Two file systems with the same entries may list them in a different
order, or list one that another hides; no change of the file system can tell them apart.
-/

namespace TemplateSuite

namespace FileSystem.SameEntries

variable {fs fs' : FileSystem} {place : Location} {path : Text}

theorem symm (h : SameEntries fs fs') : SameEntries fs' fs :=
  ⟨fun place => (h.entryAt_eq place).symm, h.workingDirectory.symm⟩

theorem sameOnRoute (h : SameEntries fs fs') (path : Text) : SameOnRoute fs fs' path :=
  ⟨fun place _ => h.entryAt_eq place, h.workingDirectory⟩

theorem walkFrom_eq (h : SameEntries fs fs') (mode : WalkMode) (path : Text) (steps : List Text) :
    fs'.walkFrom mode path steps = fs.walkFrom mode path steps := by
  rw [walkFrom, walkFrom, h.workingDirectory]
  exact walk_congr fun place _ => h.entryAt_eq place

theorem isDirectory_eq (h : SameEntries fs fs') (path : Text) :
    fs'.isDirectory path = fs.isDirectory path := by
  rw [isDirectory, isDirectory, (h.sameOnRoute path).status_eq]

theorem namesIn_eq_nil_iff :
    fs.namesIn place = [] ↔ ∀ name, fs.entryAt (place ++ [name]) = none := by
  refine ⟨fun h name => ?_, namesIn_eq_nil⟩
  cases hentry : fs.entryAt (place ++ [name]) with
  | none => rfl
  | some entry =>
      obtain ⟨children, hat⟩ := (fs.entryAt_eq_directory_iff place).mp (entryAt_above hentry)
      have hnil : sortNames (children.map Prod.fst) = [] := by
        rwa [namesIn, hat] at h
      have hlength := congrArg List.length hnil
      rw [sortNames, List.length_mergeSort, List.length_map, List.length_nil] at hlength
      rw [entryAt, Node.at?_append, hat, Option.bind_some, Node.at?_cons_directory,
        List.length_eq_zero_iff.mp hlength] at hentry
      cases hentry

theorem namesIn_eq_nil_congr (h : SameEntries fs fs') (place : Location) :
    fs'.namesIn place = [] ↔ fs.namesIn place = [] := by
  rw [namesIn_eq_nil_iff, namesIn_eq_nil_iff]
  simp only [h.entryAt_eq]

theorem put (h : SameEntries fs fs') (hplace : fs.entryAt place ≠ some .directory) (entry : Entry) :
    SameEntries (fs.put place entry) (fs'.put place entry) := by
  have hplace' : fs'.entryAt place ≠ some .directory := by rwa [h.entryAt_eq]
  have hne : place ≠ [] := by
    rintro rfl
    exact hplace (entryAt_root fs)
  by_cases habove : fs.entryAt place.dropLast = some .directory
  · have habove' := (h.entryAt_eq _).trans habove
    refine ⟨fun other => ?_, h.workingDirectory⟩
    rw [(overlays_put hplace' hne habove').entryAt_eq, (overlays_put hplace hne habove).entryAt_eq,
      h.entryAt_eq]
  · have habove' : fs'.entryAt place.dropLast ≠ some .directory := by rwa [h.entryAt_eq]
    exact ((sameEntries_put hne habove).symm.trans h).trans (sameEntries_put hne habove')

theorem erase (h : SameEntries fs fs') (place : Location) :
    SameEntries (fs.erase place) (fs'.erase place) where
  entryAt_eq := by
    intro other
    by_cases hbegins : place <+: other
    · by_cases hplace : place = []
      · subst hplace
        exact h.entryAt_eq other
      · exact (fs'.entryAt_erase_of_prefix hplace hbegins).trans
          (fs.entryAt_erase_of_prefix hplace hbegins).symm
    · exact (fs'.entryAt_erase_of_not_prefix hbegins).trans <|
        (h.entryAt_eq other).trans (fs.entryAt_erase_of_not_prefix hbegins).symm
  workingDirectory := h.workingDirectory

theorem clearBelow (h : SameEntries fs fs') (place : Location) :
    SameEntries (fs.clearBelow place) (fs'.clearBelow place) where
  entryAt_eq := by
    intro other
    rw [entryAt_clearBelow, entryAt_clearBelow, h.entryAt_eq]
  workingDirectory := h.workingDirectory

end FileSystem.SameEntries

namespace Change

open FileSystem StateAction

variable {α β : Type} {fs fs' : FileSystem}

theorem respects_ofView {view : FileSystem → Except FileError α}
    (h : ∀ {fs fs'}, SameEntries fs fs' → view fs' = view fs) :
    Respects SameEntries (ofView view) :=
  fun _ _ hsame => ⟨h hsame, hsame⟩

theorem respects_ofView_bind {view : FileSystem → Except FileError α} {f : α → Change β}
    (h : ∀ {fs fs'}, SameEntries fs fs' → view fs' = view fs)
    (hf : ∀ a fs fs', view fs = .ok a → SameEntries fs fs' → AgreesAt SameEntries (f a) fs fs') :
    Respects SameEntries (ofView view >>= f) := by
  intro fs fs' hsame
  refine (respects_ofView h fs fs' hsame).bind fun a after after' hrun hafter => ?_
  obtain ⟨hview, rfl⟩ := Prod.mk.inj hrun
  exact hf a fs after' hview hafter

/-- A look at more than the entries does no harm if what follows only depends on these. -/
theorem respects_look_bind {look : FileSystem → α} {f : α → Change β}
    (hsame : ∀ fs fs', SameEntries fs fs' → f (look fs') = f (look fs))
    (hf : ∀ a, Respects SameEntries (f a)) :
    Respects SameEntries (ofView (fun fs => .ok (look fs)) >>= f) := by
  intro fs fs' h
  constructor
  · rw [look_bind_apply, look_bind_apply, hsame fs fs' h]
    exact (hf _ fs fs' h).result_eq
  · rw [look_bind_apply, look_bind_apply, hsame fs fs' h]
    exact (hf _ fs fs' h).related

theorem respects_attempt {action : Change α} (h : Respects SameEntries action) :
    Respects SameEntries (attempt action) :=
  fun fs fs' hsame => ⟨congrArg Except.ok (h fs fs' hsame).result_eq, (h fs fs' hsame).related⟩

theorem respects_makeDirectory (path : Text) : Respects SameEntries (makeDirectory path) := by
  refine .bind (respects_ofView fun _ => rfl) fun _ => ?_
  refine respects_ofView_bind (fun h => (h.sameOnRoute _).find_eq false)
    fun spot fs fs' hfind h => ?_
  cases spot with
  | present place entry => exact Respects.throw _ _ _ h
  | vacant place =>
      have hnone := (find_eq_ok_iff.mp hfind).2.entryAt_vacant
      exact ⟨rfl, h.put (by simp [hnone]) _⟩

theorem respects_unless_directory (path : Text) (e : FileError) : Respects SameEntries
    (do unless (← ofView (.ok <| ·.isDirectory path)) do throw e : Change Unit) := by
  refine .bind (respects_ofView fun h => congrArg _ (h.isDirectory_eq path)) fun found => ?_
  split
  · exact .pure _
  · exact .throw e

theorem respects_makeDirectoriesFrom (paths : List Text) :
    Respects SameEntries (makeDirectoriesFrom paths) := by
  induction paths with
  | nil => exact .throw _
  | cons path above ih =>
      have hmake := respects_attempt (respects_makeDirectory path)
      rw [makeDirectoriesFrom]
      split
      · exact .pure _
      · refine .bind hmake fun result => ?_
        split
        · exact .pure _
        · refine .bind ih fun _ => .bind hmake fun again => ?_
          split
          · exact .pure _
          · exact respects_unless_directory path _
        · exact respects_unless_directory path _

theorem respects_makeDirectories (path : Text) : Respects SameEntries (makeDirectories path) :=
  respects_makeDirectoriesFrom _

theorem respects_directoryOf (path : Text) : Respects SameEntries (directoryOf path) := by
  refine respects_ofView fun h => ?_
  rw [h.walkFrom_eq]

theorem respects_writeFile (path content : Text) :
    Respects SameEntries (writeFile path content) := by
  unfold writeFile
  split
  · refine .bind (respects_ofView fun _ => rfl) fun _ => ?_
    exact .bind (respects_directoryOf path) fun _ => .throw _
  · refine respects_ofView_bind (fun h => (h.sameOnRoute _).find_eq true)
      fun spot fs fs' hfind h => ?_
    have hleads := (find_eq_ok_iff.mp hfind).2
    cases spot with
    | vacant place => exact ⟨rfl, h.put (by simp [hleads.entryAt_vacant]) _⟩
    | present place entry =>
        cases entry with
        | file old executable =>
            have hentry := hleads.entryAt_present (Entry.noConfusion : Entry.file _ _ ≠ .directory)
            exact ⟨rfl, h.put (by simp [hentry]) _⟩
        | directory | link => exact Respects.throw _ _ _ h

theorem respects_erase (place : Location) :
    Respects SameEntries (update (·.erase place)) :=
  fun _ _ h => ⟨rfl, h.erase place⟩

theorem respects_removeFile (path : Text) : Respects SameEntries (removeFile path) := by
  refine .bind (respects_ofView fun h => (h.sameOnRoute path).status_eq false) fun found => ?_
  obtain ⟨place, entry⟩ := found
  cases entry with
  | directory => exact .throw _
  | file | link => exact respects_erase place

theorem respects_removeEmpty (place : Location) : Respects SameEntries (do
    match ← ofView fun fs => .ok (fs.entryAt place, fs.namesIn place) with
    | (none, _) => throw .notFound
    | (some .directory, []) => update (·.erase place)
    | (some .directory, _) => throw .directoryNotEmpty
    | _ => throw .notDirectory : Change Unit) := by
  refine respects_look_bind (fun fs fs' h => ?_) fun found => ?_
  · have hempty := h.namesIn_eq_nil_congr place
    rw [h.entryAt_eq]
    rcases fs.entryAt place with _ | entry
    · rfl
    · cases entry with
      | file | link => rfl
      | directory =>
          generalize fs.namesIn place = names at hempty
          generalize fs'.namesIn place = names' at hempty
          cases names with
          | nil => rw [hempty.mpr rfl]
          | cons name rest =>
              cases names' with
              | nil => cases hempty.mp rfl
              | cons name' rest' => rfl
  · split
    · exact .throw _
    · exact respects_erase place
    · exact .throw _
    · exact .throw _

theorem respects_removeDirectory (path : Text) : Respects SameEntries (removeDirectory path) := by
  refine .bind (respects_directoryOf path) fun above => ?_
  generalize (steps (dropEndSlashes path)).getLast? = last
  split
  · exact .throw _
  · exact .throw _
  · exact .throw _
  · exact respects_removeEmpty _

theorem respects_removeTree (path : Text) : Respects SameEntries (removeTree path) := by
  refine .bind (respects_ofView fun h => (h.sameOnRoute path).status_eq false) fun found => ?_
  obtain ⟨place, entry⟩ := found
  cases entry with
  | file => exact .throw _
  | link => exact respects_erase place
  | directory =>
      refine .bind (fun _ _ h => ⟨rfl, h.clearBelow place⟩) fun _ => ?_
      refine .bind (respects_attempt (respects_removeDirectory path)) fun outcome => ?_
      split
      · exact .pure _
      · exact .pure _
      · exact .throw _

end Change

end TemplateSuite
