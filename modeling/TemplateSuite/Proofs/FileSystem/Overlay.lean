import TemplateSuite.Proofs.FileSystem.Resolve

namespace TemplateSuite.FileSystem

/-- The second file system is the first one with new entries, or none, at some places. -/
structure Overlays (new : Location → Option (Option Entry)) (fs fs' : FileSystem) : Prop where
  entryAt_eq : ∀ place, fs'.entryAt place = (new place).getD (fs.entryAt place)
  workingDirectory : fs'.workingDirectory = fs.workingDirectory

/-- Both have the same entries. -/
structure SameEntries (fs fs' : FileSystem) : Prop where
  entryAt_eq : ∀ place, fs'.entryAt place = fs.entryAt place
  workingDirectory : fs'.workingDirectory = fs.workingDirectory

variable {fs fs' fs'' : FileSystem} {place : Location} {entry : Entry}
  {new : Location → Option (Option Entry)}

theorem SameEntries.refl (fs : FileSystem) : SameEntries fs fs :=
  ⟨fun _ => rfl, rfl⟩

theorem SameEntries.trans (hfirst : SameEntries fs fs') (hsecond : SameEntries fs' fs'') :
    SameEntries fs fs'' :=
  ⟨fun place => (hsecond.entryAt_eq place).trans (hfirst.entryAt_eq place),
    hsecond.workingDirectory.trans hfirst.workingDirectory⟩

theorem SameEntries.linkFree (h : SameEntries fs fs') (hfree : fs.LinkFree place) :
    fs'.LinkFree place := by
  intro other target hother
  rw [h.entryAt_eq]
  exact hfree other target hother

theorem Overlays.linkFree (h : Overlays new fs fs') (hfree : fs.LinkFree [])
    (hnew : ∀ place target, new place ≠ some (some (.link target))) : fs'.LinkFree [] := by
  intro place target hplace hlink
  rw [h.entryAt_eq] at hlink
  cases hcase : new place with
  | none =>
      rw [hcase] at hlink
      exact hfree place target hplace hlink
  | some entry =>
      rw [hcase] at hlink
      exact hnew place target (by rw [hcase]; exact congrArg some hlink)

theorem Overlays.directory (h : Overlays new fs fs')
    (hnew : new place = none ∨ new place = some (some .directory))
    (hentry : fs.entryAt place = some .directory) : fs'.entryAt place = some .directory := by
  rw [h.entryAt_eq]
  rcases hnew with hnone | hsome
  · rw [hnone]
    exact hentry
  · rw [hsome]
    rfl

theorem overlays_put (hplace : fs.entryAt place ≠ some .directory) (hne : place ≠ [])
    (habove : fs.entryAt place.dropLast = some .directory) :
    Overlays (fun other => if other = place then some (some entry) else none) fs
      (fs.put place entry) where
  entryAt_eq := by
    obtain ⟨above, name, rfl⟩ := (List.eq_nil_or_concat place).resolve_left hne
    rw [List.concat_eq_append] at *
    rw [List.dropLast_concat] at habove
    intro other
    by_cases hother : other = above ++ [name]
    · subst hother
      rw [if_pos rfl]
      exact entryAt_put_self fs above name entry habove
    · rw [if_neg hother, Option.getD_none]
      cases hold : fs.entryAt other with
      | some found => exact entryAt_put_of_ne hplace hother hold
      | none =>
          cases hnew : (fs.put (above ++ [name]) entry).entryAt other with
          | none => rfl
          | some found =>
              rcases eq_or_of_entryAt_put hplace hnew with ⟨heq, -⟩ | hsame
              · exact absurd heq hother
              · exact hsame.symm.trans hold
  workingDirectory := rfl

theorem sameEntries_put (hne : place ≠ [])
    (habove : fs.entryAt place.dropLast ≠ some .directory) :
    SameEntries fs (fs.put place entry) where
  entryAt_eq := by
    obtain ⟨above, name, rfl⟩ := (List.eq_nil_or_concat place).resolve_left hne
    rw [List.concat_eq_append] at *
    rw [List.dropLast_concat] at habove
    have hlonger : ¬ above ++ [name] <+: above := fun h => by
      have hlength := h.length_le
      rw [List.length_append, List.length_singleton] at hlength
      omega
    have hlost : ∀ {files : FileSystem} {other}, files.entryAt above ≠ some .directory →
        above ++ [name] <+: other → files.entryAt other = none := by
      intro files other hmissing hprefix
      cases hother : files.entryAt other with
      | none => rfl
      | some found =>
          have hencloses : Location.Encloses above other := by
            refine ⟨(List.prefix_append _ _).trans hprefix, ?_⟩
            rintro rfl
            exact hlonger hprefix
          exact absurd (entryAt_of_encloses hencloses hother) hmissing
    intro other
    by_cases hprefix : above ++ [name] <+: other
    · rw [hlost habove hprefix]
      refine hlost ?_ hprefix
      rwa [fs.entryAt_put_of_not_prefix entry hlonger]
    · exact fs.entryAt_put_of_not_prefix entry hprefix
  workingDirectory := rfl

end TemplateSuite.FileSystem
