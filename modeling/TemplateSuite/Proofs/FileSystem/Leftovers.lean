import TemplateSuite.Proofs.FileSystem.Confinement
import TemplateSuite.Proofs.FileSystem.Renewal

/-!
Leftovers. The same changes are made to two file systems, of which the second one also has what an
earlier run left below the root. Each directory that is renewed makes them agree there, and where
they agree the changes go alike.
-/

namespace TemplateSuite

namespace Change

open FileSystem StateAction

variable {fs fs' other : FileSystem} {path content : Text} {place : Location}

theorem endsInSlash_of_writeFile (h : writeFile path content fs = (.ok (), fs')) :
    Path.endsInSlash path = false := by
  by_contra hslash
  rw [writeFile, if_pos (by simpa using hslash)] at h
  obtain ⟨_, _, -, hrest⟩ := bind_eq_ok h
  obtain ⟨_, _, -, hthrow⟩ := bind_eq_ok hrest
  cases hthrow

theorem overlays_put_of_leadsTo {mode : WalkMode} {spot : Spot} {executable : Bool}
    (hleads : fs.LeadsTo mode path spot)
    (hspot : spot = .vacant place ∨ ∃ old, spot = .present place (.file old executable))
    (hcount : 1 < Path.nameCount path) (entry : Entry) : fs.entryAt place ≠ some .directory ∧
      Overlays (fun other => if other = place then some (some entry) else none) fs
        (fs.put place entry) := by
  have hplace : fs.entryAt place ≠ some .directory := by
    rcases entryAt_of_leadsTo hleads hspot with hnone | ⟨old, hsome⟩
    · simp [hnone]
    · simp [hsome]
  have habove : ∃ above name, place = above ++ [name] ∧ fs.entryAt above = some .directory := by
    rcases hspot with rfl | ⟨old, rfl⟩
    · exact hleads.exists_above_vacant (.inr hcount)
    · have hfile := hleads.entryAt_present nofun
      rcases List.eq_nil_or_concat place with rfl | ⟨above, name, rfl⟩
      · exact absurd (entryAt_root fs) hplace
      · rw [List.concat_eq_append] at hfile ⊢
        exact ⟨above, name, rfl, entryAt_above hfile⟩
  obtain ⟨above, name, rfl, habove⟩ := habove
  refine ⟨hplace, overlays_put hplace (by simp) ?_⟩
  rwa [List.dropLast_concat]

theorem exists_mark_of_find {spot : Spot} {executable : Bool}
    (hslash : Path.endsInSlash path = false)
    (hspot : spot = .vacant place ∨ ∃ old, spot = .present place (.file old executable)) :
    ∃ mark, ∀ {other : FileSystem}, other.find true path = .ok spot →
      writeFile path content other = (.ok (), other.put place (.file (.text content) mark)) := by
  have hlook : ∀ {other : FileSystem}, other.find true path = .ok spot →
      ofView (·.find true path) other = (.ok spot, other) := by
    intro other hfind
    rw [ofView, hfind]
  rcases hspot with rfl | ⟨old, rfl⟩
  · refine ⟨false, fun hfind => ?_⟩
    rw [writeFile, if_neg (by simp [hslash]), bind_of_ok (hlook hfind)]
    rfl
  · refine ⟨executable, fun hfind => ?_⟩
    rw [writeFile, if_neg (by simp [hslash]), bind_of_ok (hlook hfind)]
    rfl

theorem exists_put_of_writeFile (hcount : 1 < Path.nameCount path)
    (h : writeFile path content fs = (.ok (), fs')) : ∃ place executable, ∀ {other},
      SameOnRoute fs other path →
        let entry := Entry.file (.text content) executable
        writeFile path content other = (.ok (), other.put place entry) ∧
          other.entryAt place ≠ some .directory ∧
            Overlays (fun passed => if passed = place then some (some entry) else none) other
              (other.put place entry) := by
  obtain ⟨place, executable, spot, hfind, hspot, -⟩ := exists_place_of_writeFile h
  obtain ⟨mark, hwrite⟩ := exists_mark_of_find (endsInSlash_of_writeFile h) hspot
  refine ⟨place, mark, fun {other} hsame => ?_⟩
  have hfind' := (hsame.find_eq true).trans hfind
  obtain ⟨hplace, hover⟩ := overlays_put_of_leadsTo (find_eq_ok_iff.mp hfind').2 hspot hcount _
  exact ⟨hwrite hfind', hplace, hover⟩

theorem directory_of_writeFile (hcount : 1 < Path.nameCount path)
    (h : writeFile path content fs = (.ok (), fs')) (hentry : fs.entryAt place = some .directory) :
    fs'.entryAt place = some .directory := by
  obtain ⟨written, executable, hput⟩ := exists_put_of_writeFile hcount h
  obtain ⟨hrun, hfile, hover⟩ := hput (.refl fs path)
  obtain rfl := (Prod.mk.inj (hrun.symm.trans h)).2
  rw [hover.entryAt_eq, if_neg]
  · exact hentry
  · rintro rfl
    exact hfile hentry

end Change

namespace FileSystem

/-- The two file systems agree, except that below the root, outside of what has been renewed, the
second one may still have what is left from `old`. -/
structure CatchesUp (root : Text) (old : FileSystem) (renewed : List Location)
    (fs fs' : FileSystem) : Prop where
  grounded : fs.Grounded root
  grounded' : fs'.Grounded root
  workingDirectory : fs'.workingDirectory = fs.workingDirectory
  old_linkFree : old.LinkFree []
  old_workingDirectory : old.workingDirectory = fs.workingDirectory
  entryAt_cases : ∀ place, fs'.entryAt place = fs.entryAt place ∨
    fs'.entryAt place = old.entryAt place ∧ (fs.goal root).Encloses place ∧
      ∀ fresh ∈ renewed, ¬ fresh <+: place

/-- Nothing on the way that the path leads is below the place. -/
def Avoids (fs : FileSystem) (place : Location) (path : Text) : Prop :=
  ∀ passed ∈ fs.route path, ¬ place.Encloses passed

/-- The path goes down from a directory that has been renewed. -/
structure Within (fs : FileSystem) (root path : Text) (names : List Text)
    (renewed : List Location) (first : List Text) : Prop where
  descends : Path.Descends root path names
  prefix_names : first <+: names
  fresh : fs.goal root ++ first ∈ renewed
  directory : fs.entryAt (fs.goal root ++ first) = some .directory

variable {root path content : Text} {old fs fs' gs gs' : FileSystem} {place : Location}
  {fresh more : List Location} {names first : List Text}
  {new : Location → Option (Option Entry)}

theorem Overlays.grounded (h : Overlays new fs gs) (hground : fs.Grounded root)
    (hnew : ∀ place target, new place ≠ some (some (.link target)))
    (hkept : ∀ place, place ∈ fs.way root ∨ place = fs.goal root →
      new place = none ∨ new place = some (some .directory)) : gs.Grounded root := by
  refine ⟨h.linkFree hground.linkFree hnew, fun place hmem => ?_, ?_⟩
  · rw [way, h.workingDirectory] at hmem
    exact h.directory (hkept place (.inl hmem)) (hground.way place hmem)
  · rw [goal, h.workingDirectory]
    exact h.directory (hkept _ (.inr rfl)) hground.top

namespace CatchesUp

theorem way_eq (h : CatchesUp root old fresh fs fs') (path : Text) :
    fs'.way path = fs.way path :=
  way_congr h.workingDirectory path

theorem goal_eq (h : CatchesUp root old fresh fs fs') (path : Text) :
    fs'.goal path = fs.goal path :=
  goal_congr h.workingDirectory path

theorem overlay (h : CatchesUp root old fresh fs fs') (hfs : Overlays new fs gs)
    (hfs' : Overlays new fs' gs') (hnew : ∀ place target, new place ≠ some (some (.link target)))
    (hkept : ∀ place, place ∈ fs.way root ∨ place = fs.goal root →
      new place = none ∨ new place = some (some .directory))
    (hmore : ∀ place, new place = none → (∃ renewed ∈ more, renewed <+: place) →
      ∃ renewed ∈ fresh, renewed <+: place) : CatchesUp root old more gs gs' where
  grounded := hfs.grounded h.grounded hnew hkept
  grounded' := by
    refine hfs'.grounded h.grounded' hnew ?_
    rwa [h.way_eq, h.goal_eq]
  workingDirectory := by rw [hfs'.workingDirectory, hfs.workingDirectory, h.workingDirectory]
  old_linkFree := h.old_linkFree
  old_workingDirectory := h.old_workingDirectory.trans hfs.workingDirectory.symm
  entryAt_cases := by
    intro place
    rw [hfs.entryAt_eq, hfs'.entryAt_eq, goal_congr hfs.workingDirectory]
    cases hcase : new place with
    | some entry => exact .inl rfl
    | none =>
        rcases h.entryAt_cases place with hsame | ⟨hold, hbelow, hfresh⟩
        · exact .inl hsame
        · refine .inr ⟨hold, hbelow, fun renewed hmem hprefix => ?_⟩
          obtain ⟨earlier, hearlier, habove⟩ := hmore place hcase ⟨renewed, hmem, hprefix⟩
          exact hfresh earlier hearlier habove

theorem renew (h : CatchesUp root old fresh fs fs') (hpath : Path.Descends root path names)
    (hnames : names ≠ []) (hrun : Change.renew path fs = (.ok (), gs))
    (hblocks : ∀ place, old.Blocks path place → ∃ renewed ∈ fresh, renewed <+: place) :
    ∃ gs', Change.renew path fs' = (.ok (), gs') ∧
      CatchesUp root old (fs.goal path :: fresh) gs gs' ∧
        Overlays (Change.renewed fs path) fs gs := by
  have hrenewable := Change.renewable_of_renew h.grounded hpath hnames hrun
  have hopen := Change.not_blocks_of_renew h.grounded hpath hnames hrun
  have hopen' : ∀ place, ¬ fs'.Blocks path place := by
    intro place hblock
    rcases h.entryAt_cases place with hsame | ⟨hold, -, hfresh⟩
    · exact hopen place (hblock.of_eq h.grounded'.linkFree h.grounded.linkFree
        h.workingDirectory.symm hsame.symm)
    · obtain ⟨renewed, hmem, hprefix⟩ := hblocks place (hblock.of_eq h.grounded'.linkFree
        h.old_linkFree (h.old_workingDirectory.trans h.workingDirectory.symm) hold.symm)
      exact hfresh renewed hmem hprefix
  obtain ⟨found, hfound, hfs⟩ :=
    Change.exists_renew_eq_ok h.grounded hpath hnames hrenewable hopen
  obtain rfl := (Prod.mk.inj (hfound.symm.trans hrun)).2
  obtain ⟨gs', hrun', hfs'⟩ := Change.exists_renew_eq_ok h.grounded' hpath hnames
    (hrenewable.of_workingDirectory h.workingDirectory) hopen'
  have hsame : Change.renewed fs' path = Change.renewed fs path := by
    funext place
    rw [Change.renewed, Change.renewed, h.way_eq, h.goal_eq]
  rw [hsame] at hfs'
  refine ⟨gs', hrun', h.overlay hfs hfs' Change.renewed_ne_link
    (fun place => Change.renewed_of_root hpath hnames) ?_, hfs⟩
  rintro place hnone ⟨renewed, hmem, hprefix⟩
  rcases List.mem_cons.mp hmem with rfl | hearlier
  · exact absurd hprefix (Change.not_prefix_of_renewed_eq_none hnone)
  · exact ⟨renewed, hearlier, hprefix⟩

theorem entryAt_of_mem_way (h : CatchesUp root old fresh fs fs')
    (hpath : Within fs root path names fresh first) (hmem : place ∈ fs.way path) :
    fs'.entryAt place = fs.entryAt place := by
  have hfresh : ∀ {place}, fs.goal root ++ first <+: place →
      fs'.entryAt place = fs.entryAt place := by
    intro place hprefix
    rcases h.entryAt_cases place with hsame | ⟨-, -, hout⟩
    · exact hsame
    · exact absurd hprefix (hout _ hpath.fresh)
  rcases (mem_way_of_descends hpath.descends).mp hmem with hroot | ⟨front, -, hfront, rfl⟩
  · rw [h.grounded.way place hroot, h.grounded'.way place (h.way_eq root ▸ hroot)]
  · rcases List.prefix_or_prefix_of_prefix hfront hpath.prefix_names with habove | hbelow
    · by_cases heq : front = first
      · exact heq ▸ hfresh List.prefix_rfl
      · have hencloses : Location.Encloses (fs.goal root ++ front) (fs.goal root ++ first) :=
          ⟨(List.prefix_append_right_inj _).mpr habove,
            fun hsame => heq (List.append_cancel_left hsame)⟩
        rw [entryAt_of_encloses hencloses hpath.directory, entryAt_of_encloses hencloses
          ((hfresh List.prefix_rfl).trans hpath.directory)]
    · exact hfresh ((List.prefix_append_right_inj _).mpr hbelow)

theorem makeDirectories (h : CatchesUp root old fresh fs fs')
    (hpath : Within fs root path names fresh first) (hnames : names ≠ [])
    (hrun : Change.makeDirectories path fs = (.ok (), gs)) :
    ∃ gs', Change.makeDirectories path fs' = (.ok (), gs') ∧ CatchesUp root old fresh gs gs' := by
  have hnil := ne_nil_of_descends hpath.descends hnames
  have hbase := h.grounded.directory_base hpath.descends
  have hmade := Change.overlays_makeDirectories h.grounded.linkFree hnil hbase hrun
  -- the first run could make the directories, so no file and no link was on the way
  have hopen : ∀ place ∈ fs'.way path,
      fs'.entryAt place = none ∨ fs'.entryAt place = some .directory := by
    intro place hmem
    rw [h.way_eq] at hmem
    rw [h.entryAt_of_mem_way hpath hmem]
    have hadds := (Change.makes_makeDirectories path fs).kept
    rw [hrun] at hadds
    cases hentry : fs.entryAt place with
    | none => exact .inl rfl
    | some entry =>
        have hdirectory := hmade.entryAt_eq place
        rw [if_pos hmem, hadds.entries hentry] at hdirectory
        exact .inr hdirectory
  have hends : ¬ Path.EndsIdly path ∨ fs'.entryAt (fs'.goal path) = some .directory := by
    have hgoal : fs.goal path ∈ fs.way path := goal_mem_way_of_descends hpath.descends hnames
    have hsame := h.entryAt_of_mem_way hpath hgoal
    rw [h.goal_eq]
    rcases hopen _ ((h.way_eq path).symm ▸ hgoal) with hnone | hdirectory
    · exact .inl (Change.not_endsIdly_of_makeDirectories h.grounded hpath.descends hnames
        (hsame.symm.trans hnone) hrun)
    · exact .inr hdirectory
  have hacceptable := Change.acceptable_of_makeDirectoriesFrom h.grounded.linkFree hnil hrun
  have hbase' := h.grounded'.directory_base hpath.descends
  obtain ⟨gs', hrun'⟩ := Change.exists_makeDirectoriesFrom_eq_ok (Path.lineage_ancestors path)
    (fun _ => hacceptable.of_mem_ancestors) h.grounded'.linkFree hends hopen hbase'
  have hmade' := Change.overlays_makeDirectories h.grounded'.linkFree hnil hbase' hrun'
  rw [h.way_eq] at hmade'
  refine ⟨gs', hrun', h.overlay hmade hmade' (fun place target => ?_) (fun place _ => ?_)
    fun place _ hmore => hmore⟩
  · split <;> simp
  · split
    · exact .inr rfl
    · exact .inl rfl

theorem sameOnRoute (h : CatchesUp root old fresh fs fs')
    (hpath : Within fs root path names fresh first) : SameOnRoute fs fs' path where
  entryAt_eq := fun _ hmem =>
    h.entryAt_of_mem_way hpath (route_subset_way h.grounded.linkFree path hmem)
  workingDirectory := h.workingDirectory

theorem writeFile (h : CatchesUp root old fresh fs fs')
    (hpath : Within fs root path names fresh first) (hcount : 1 < Path.nameCount path)
    (hrun : Change.writeFile path content fs = (.ok (), gs)) :
    ∃ gs', Change.writeFile path content fs' = (.ok (), gs') ∧ CatchesUp root old fresh gs gs' := by
  obtain ⟨place, executable, hput⟩ := Change.exists_put_of_writeFile hcount hrun
  obtain ⟨hrun₁, hfile, hover⟩ := hput (.refl fs path)
  obtain ⟨hrun', -, hover'⟩ := hput (h.sameOnRoute hpath)
  obtain rfl := (Prod.mk.inj (hrun₁.symm.trans hrun)).2
  refine ⟨_, hrun', h.overlay hover hover' (fun other target => ?_) (fun other hother => ?_)
    fun other _ hmore => hmore⟩
  · split <;> simp
  · refine .inl (if_neg ?_)
    rintro rfl
    rcases hother with hmem | rfl
    · exact hfile (h.grounded.way _ hmem)
    · exact hfile h.grounded.top

theorem sameOnRoute_of_avoids (h : CatchesUp root old fresh fs fs')
    (havoids : fs.Avoids (fs.goal root) path) : SameOnRoute fs fs' path where
  entryAt_eq := by
    intro passed hmem
    rcases h.entryAt_cases passed with hsame | ⟨-, hbelow, -⟩
    · exact hsame
    · exact absurd hbelow (havoids passed hmem)
  workingDirectory := h.workingDirectory

end CatchesUp

end FileSystem

end TemplateSuite
