import TemplateSuite.Proofs.FileSystem.Change

namespace TemplateSuite.FileSystem

/-- The root stands for the location, and there are no links there or below. -/
structure IsTop (fs : FileSystem) (root : Text) (top : Location) : Prop where
  denotes : fs.Denotes root top
  linkFree : fs.LinkFree top

/-- Nothing was changed but what is at and below the top, and there are no links there. -/
structure KeptOutside (top : Location) (fs fs' : FileSystem) : Prop where
  workingDirectory : fs'.workingDirectory = fs.workingDirectory
  outside : ∀ place, ¬ top <+: place → fs'.entryAt place = fs.entryAt place
  linkFree : fs'.LinkFree top

/-- Nothing was changed but what is at and below the top, except that directories were made which
were missing on the way to the root. -/
structure Confined (root : Text) (top : Location) (fs fs' : FileSystem) : Prop where
  workingDirectory : fs'.workingDirectory = fs.workingDirectory
  outside : ∀ place, ¬ top <+: place → fs'.entryAt place = fs.entryAt place ∨
    fs.entryAt place = none ∧ fs'.entryAt place = some .directory ∧
      ∃ above ∈ Path.ancestors root, fs.Denotes above place
  linkFree : fs'.LinkFree top

variable {fs fs' fs'' : FileSystem} {root path content : Text} {top place : Location}
  {names : List Text} {result : Except FileError Unit}

namespace KeptOutside

theorem refl (h : fs.LinkFree top) : KeptOutside top fs fs where
  workingDirectory := rfl
  outside := fun _ _ => rfl
  linkFree := h

theorem trans (hfirst : KeptOutside top fs fs') (hsecond : KeptOutside top fs' fs'') :
    KeptOutside top fs fs'' where
  workingDirectory := hsecond.workingDirectory.trans hfirst.workingDirectory
  outside := fun place hplace => (hsecond.outside place hplace).trans (hfirst.outside place hplace)
  linkFree := hsecond.linkFree

theorem confined (h : KeptOutside top fs fs') : Confined root top fs fs' where
  workingDirectory := h.workingDirectory
  outside := fun place hplace => .inl (h.outside place hplace)
  linkFree := h.linkFree

end KeptOutside

namespace Confined

theorem refl (h : fs.LinkFree top) : Confined root top fs fs where
  workingDirectory := rfl
  outside := fun _ _ => .inl rfl
  linkFree := h

theorem sameLinks (h : Confined root top fs fs') (hfree : fs.LinkFree top) : fs.SameLinks fs' := by
  intro place target
  by_cases hplace : top <+: place
  · exact ⟨fun hlink => absurd hlink (hfree _ _ hplace),
      fun hlink => absurd hlink (h.linkFree _ _ hplace)⟩
  · rcases h.outside place hplace with hsame | ⟨hnone, hdirectory, -⟩
    · rw [hsame]
    · rw [hnone, hdirectory]
      exact ⟨nofun, nofun⟩

theorem isTop (h : Confined root top fs fs') (htop : fs.IsTop root top) : fs'.IsTop root top where
  denotes := htop.denotes.of_sameLinks (h.sameLinks htop.linkFree) h.workingDirectory
  linkFree := h.linkFree

theorem trans (hfree : fs.LinkFree top) (hfirst : Confined root top fs fs')
    (hsecond : Confined root top fs' fs'') : Confined root top fs fs'' where
  workingDirectory := hsecond.workingDirectory.trans hfirst.workingDirectory
  outside := by
    intro place hplace
    rcases hsecond.outside place hplace with hsame | ⟨hnone, hdirectory, above, habove, hdenotes⟩
    · rw [hsame]
      exact hfirst.outside place hplace
    · refine .inr ⟨?_, hdirectory, above, habove, ?_⟩
      · rcases hfirst.outside place hplace with hsame | ⟨hfree, -⟩
        · rw [← hsame, hnone]
        · exact hfree
      · have hback : fs'.SameLinks fs := fun other target =>
          (hfirst.sameLinks hfree other target).symm
        exact hdenotes.of_sameLinks hback hfirst.workingDirectory.symm
  linkFree := hsecond.linkFree

end Confined

/-- What an ancestor of a path below the root stands for is below the root, or an ancestor of the
root stands for it. -/
theorem IsTop.of_ancestor {above : Text} (htop : fs.IsTop root top)
    (hpath : Path.Descends root path names) (habove : above ∈ Path.ancestors path)
    (h : fs.Denotes above place) :
    top <+: place ∨ ∃ higher ∈ Path.ancestors root, fs.Denotes higher place := by
  obtain ⟨habsolute, hprefix, -⟩ := Path.begins_of_mem_ancestors habove
  have habsolute' := habsolute.trans hpath.absolute
  have hroot : Path.course root <+: Path.course path := hpath.course ▸ List.prefix_append _ _
  rcases List.prefix_or_prefix_of_prefix hroot hprefix with ⟨more, hmore⟩ | ⟨back, hback⟩
  · have hdescends : Path.Descends root above more := by
      refine ⟨habsolute', hmore.symm, fun hclimb => hpath.parent_not_mem ?_⟩
      rw [← hmore, hpath.course] at hprefix
      exact ((List.prefix_append_right_inj _).mp hprefix).subset hclimb
    rw [htop.denotes.place_eq htop.linkFree hdescends h]
    exact .inl (List.prefix_append _ _)
  · by_cases hnil : back = []
    · subst hnil
      have hdescends : Path.Descends root above [] :=
        ⟨habsolute', by simpa using hback, List.not_mem_nil⟩
      rw [htop.denotes.place_eq htop.linkFree hdescends h]
      exact .inl (List.prefix_append _ _)
    · obtain ⟨higher, hhigher, hcourse⟩ := Path.exists_mem_ancestors hnil hback.symm
      refine .inr ⟨higher, hhigher, ?_⟩
      have hstart := (Path.begins_of_mem_ancestors hhigher).1.trans habsolute'.symm
      rw [Denotes, hcourse, startOf, hstart]
      exact h

theorem IsTop.place_eq_of_status {followLast : Bool} {entry : Entry} (htop : fs.IsTop root top)
    (hpath : Path.Descends root path names) (hnames : names ≠ [])
    (h : fs.status followLast path = .ok (place, entry)) : place = top ++ names :=
  LeadsTo.place_eq htop.denotes htop.linkFree hpath hnames (status_eq_ok_iff.mp h).2

theorem not_prefix_of_append (h : ¬ top <+: place) : ¬ top ++ names <+: place :=
  fun hprefix => h ((List.prefix_append _ _).trans hprefix)

theorem keptOutside_of_removal (htop : fs.IsTop root top) (hpath : Path.Descends root path names)
    (hnames : names ≠ []) (h : Change.Removal path result fs fs') : KeptOutside top fs fs' := by
  rcases h with ⟨-, rfl⟩ | ⟨place, entry, hstatus, hremoves⟩
  · exact .refl htop.linkFree
  · obtain rfl := htop.place_eq_of_status hpath hnames hstatus
    refine ⟨hremoves.workingDirectory, fun other hother => ?_, fun other target hother hlink => ?_⟩
    · exact hremoves.kept (not_prefix_of_append hother)
    · exact htop.linkFree other target hother (hremoves.shrinks.entries hlink)

theorem confined_of_removal (htop : fs.IsTop root top) (hpath : Path.Descends root path names)
    (hnames : names ≠ []) (h : Change.Removal path result fs fs') :
    Confined root top fs fs' :=
  (keptOutside_of_removal htop hpath hnames h).confined

theorem confined_makeDirectories (htop : fs.IsTop root top)
    (hpath : Path.Descends root path names) :
    Confined root top fs (Change.makeDirectories path fs).2 := by
  have hadds := Change.makes_makeDirectories path fs
  refine ⟨hadds.kept.workingDirectory, fun place hplace => ?_, fun place target hplace hlink => ?_⟩
  · cases hold : fs.entryAt place with
    | some entry => exact .inl (hadds.kept.entries hold)
    | none =>
        cases hnew : (Change.makeDirectories path fs).2.entryAt place with
        | none => exact .inl rfl
        | some entry =>
            rcases hadds.added hnew with hfound | ⟨rfl, above, hmem, -, hdenotes⟩
            · cases hold.symm.trans hfound
            · refine .inr ⟨rfl, rfl, ?_⟩
              rcases List.mem_cons.mp hmem with rfl | habove
              · rw [htop.denotes.place_eq htop.linkFree hpath hdenotes] at hplace
                exact absurd (List.prefix_append _ _) hplace
              · exact (htop.of_ancestor hpath habove hdenotes).resolve_left hplace
  · exact htop.linkFree place target hplace ((hadds.sameLinks place target).mpr hlink)

theorem keptOutside_writeFile (htop : fs.IsTop root top) (hpath : Path.Descends root path names)
    (hnames : names ≠ []) (h : Change.writeFile path content fs = (result, fs')) :
    KeptOutside top fs fs' := by
  cases result with
  | error e =>
      obtain rfl := Change.eq_of_writeFile_eq_error h
      exact .refl htop.linkFree
  | ok _ =>
      obtain ⟨place, executable, spot, hfind, hspot, rfl⟩ := Change.exists_place_of_writeFile h
      obtain ⟨-, hleads⟩ := find_eq_ok_iff.mp hfind
      have hfile : fs.entryAt place ≠ some .directory := by
        rcases Change.entryAt_of_leadsTo hleads hspot with hnone | ⟨old, hsome⟩
        · simp [hnone]
        · simp [hsome]
      obtain rfl : place = top ++ names := by
        have hplace := hleads.place_eq htop.denotes htop.linkFree hpath hnames
        rcases hspot with rfl | ⟨old, rfl⟩
        · exact hplace
        · exact hplace
      refine ⟨rfl, fun other hother => ?_, fun other target hother hlink => ?_⟩
      · exact fs.entryAt_put_of_not_prefix _ (not_prefix_of_append hother)
      · rcases eq_or_of_entryAt_put hfile hlink with ⟨-, hentry⟩ | hold
        · cases hentry
        · exact htop.linkFree other target hother hold

theorem confined_writeFile (htop : fs.IsTop root top) (hpath : Path.Descends root path names)
    (hnames : names ≠ []) (h : Change.writeFile path content fs = (result, fs')) :
    Confined root top fs fs' :=
  (keptOutside_writeFile htop hpath hnames h).confined

end TemplateSuite.FileSystem
