import TemplateSuite.FileSystem.Change
import TemplateSuite.Proofs.FileSystem.Resolve
import TemplateSuite.Proofs.StateAction

namespace TemplateSuite.Change

open FileSystem StateAction

variable {α β : Type} {fs fs' : FileSystem}

theorem look_bind_apply (look : FileSystem → α) (f : α → Change β) (fs : FileSystem) :
    (ofView (fun fs => .ok (look fs)) >>= f) fs = f (look fs) fs :=
  bind_of_ok rfl f

/-- Apart from slashes at its end, the path ends with a name. -/
def EndsInName (path : Text) : Prop :=
  ∃ name, (steps (dropEndSlashes path)).getLast? = some name ∧ isName name

/-- Only directories were added, each at a location that one of the paths stands for, and as its last
name. -/
structure Adds (paths : List Text) (fs fs' : FileSystem) : Prop where
  kept : fs.Extends fs'
  added : ∀ {place entry}, fs'.entryAt place = some entry → fs.entryAt place = some entry ∨
    entry = .directory ∧ ∃ path ∈ paths, EndsInName path ∧ fs.Denotes path place

namespace Adds

variable {paths more : List Text} {fs'' : FileSystem}

theorem refl (paths : List Text) (fs : FileSystem) : Adds paths fs fs :=
  ⟨.refl fs, .inl⟩

theorem sameLinks (h : Adds paths fs fs') : fs.SameLinks fs' := by
  intro place target
  constructor
  · exact fun hlink => h.kept.entries hlink
  · intro hlink
    rcases h.added hlink with hold | ⟨hdirectory, -⟩
    · exact hold
    · cases hdirectory

theorem trans (hfirst : Adds paths fs fs') (hsecond : Adds paths fs' fs'') :
    Adds paths fs fs'' where
  kept := hfirst.kept.trans hsecond.kept
  added := by
    intro place entry hentry
    rcases hsecond.added hentry with hmiddle | ⟨rfl, path, hpath, hends, hdenotes⟩
    · exact hfirst.added hmiddle
    · have hback : fs'.SameLinks fs := fun place target => (hfirst.sameLinks place target).symm
      exact .inr ⟨rfl, path, hpath, hends,
        hdenotes.of_sameLinks hback hfirst.kept.workingDirectory.symm⟩

theorem mono (h : Adds paths fs fs') (hmore : paths ⊆ more) : Adds more fs fs' where
  kept := h.kept
  added := by
    intro place entry hentry
    rcases h.added hentry with hold | ⟨rfl, path, hpath, hends, hdenotes⟩
    · exact .inl hold
    · exact .inr ⟨rfl, path, hmore hpath, hends, hdenotes⟩

end Adds

/-- Whatever the action does, it only makes directories under the paths. -/
def Makes (paths : List Text) (action : Change α) : Prop :=
  ∀ fs : FileSystem, Adds paths fs (action fs).2

variable {paths : List Text}

theorem makes_pure (a : α) : Makes paths (pure a : Change α) :=
  fun fs => .refl paths fs

theorem makes_throw (e : FileError) : Makes paths (throw e : Change α) :=
  fun fs => .refl paths fs

theorem makes_ofView (view : FileSystem → Except FileError α) : Makes paths (ofView view) :=
  fun fs => .refl paths fs

theorem makes_attempt {action : Change α} (h : Makes paths action) : Makes paths (attempt action) :=
  fun fs => h fs

theorem adds_bind {x : Change α} {f : α → Change β} (hx : Adds paths fs (x fs).2)
    (hf : ∀ a after, x fs = (.ok a, after) → Adds paths after (f a after).2) :
    Adds paths fs ((x >>= f) fs).2 := by
  rcases hrun : x fs with ⟨e | a, after⟩
  · rw [bind_of_error hrun]
    simpa only [hrun] using hx
  · rw [bind_of_ok hrun]
    exact .trans (by simpa only [hrun] using hx) (hf a after hrun)

theorem makes_bind {x : Change α} {f : α → Change β} (hx : Makes paths x)
    (hf : ∀ a, Makes paths (f a)) : Makes paths (x >>= f) :=
  fun fs => adds_bind (hx fs) fun a after _ => hf a after

theorem makes_makeDirectory {path : Text} (hpath : path ∈ paths) :
    Makes paths (makeDirectory path) := by
  refine makes_bind (makes_ofView _) fun _ fs => ?_
  refine adds_bind (makes_ofView _ fs) fun spot after hspot => ?_
  obtain ⟨hfind, rfl⟩ := Prod.mk.inj hspot
  cases spot with
  | present place entry => exact makes_throw _ fs
  | vacant place =>
      obtain ⟨-, hleads⟩ := find_eq_ok_iff.mp hfind
      have hnone := hleads.entryAt_vacant
      refine ⟨extends_put hnone, fun hentry => ?_⟩
      rcases eq_or_of_entryAt_put (by simp [hnone]) hentry with ⟨rfl, rfl⟩ | hold
      · exact .inr ⟨rfl, path, hpath, hleads.exists_last_name rfl,
          denotes_dropEndSlashes.mp (hleads.denotes nofun)⟩
      · exact .inl hold

theorem makes_unless_directory (path : Text) (e : FileError) :
    Makes paths (do unless (← ofView (.ok <| ·.isDirectory path)) do throw e) := by
  refine makes_bind (makes_ofView _) fun found => ?_
  split
  · exact makes_pure _
  · exact makes_throw e

theorem makes_makeDirectoriesFrom (paths : List Text) :
    Makes paths (makeDirectoriesFrom paths) := by
  induction paths with
  | nil => exact makes_throw _
  | cons path above ih =>
      have hpath : Makes (path :: above) (attempt (makeDirectory path)) :=
        makes_attempt (makes_makeDirectory List.mem_cons_self)
      rw [makeDirectoriesFrom]
      split
      · exact makes_pure _
      · refine makes_bind hpath fun result => ?_
        split
        · exact makes_pure _
        · refine makes_bind (fun fs => (ih fs).mono (List.subset_cons_self _ _)) fun _ => ?_
          refine makes_bind hpath fun again => ?_
          split
          · exact makes_pure _
          · exact makes_unless_directory path _
        · exact makes_unless_directory path _

theorem makes_makeDirectories (path : Text) :
    Makes (path :: Path.ancestors path) (makeDirectories path) :=
  makes_makeDirectoriesFrom _

/-- Under the path the content is written to the place and nothing else is changed; as long as the
way stays, the path leads to the file there. -/
structure Writes (path content : Text) (place : Location) (fs fs' : FileSystem) : Prop where
  destination : fs.destination path = some place
  hasText : fs'.HasText place content
  kept : ∀ {other entry}, other ≠ place → fs.entryAt other = some entry →
    fs'.entryAt other = some entry
  workingDirectory : fs'.workingDirectory = fs.workingDirectory
  status : ∀ {later : FileSystem} {text executable}, fs.KeepsWay later path →
    later.workingDirectory = fs.workingDirectory →
      later.entryAt place = some (.file text executable) →
        later.status true path = .ok (place, .file text executable)

theorem exists_place_of_writeFile {path content : Text}
    (h : writeFile path content fs = (.ok (), fs')) :
    ∃ place executable spot, fs.find true path = .ok spot ∧
      (spot = .vacant place ∨ ∃ old, spot = .present place (.file old executable)) ∧
        fs' = fs.put place (.file (.text content) executable) := by
  rw [writeFile] at h
  split at h
  · obtain ⟨_, _, -, hrest⟩ := bind_eq_ok h
    obtain ⟨_, _, -, hthrow⟩ := bind_eq_ok hrest
    cases hthrow
  · obtain ⟨spot, between, hspot, hrest⟩ := bind_eq_ok h
    obtain ⟨hfind, rfl⟩ := Prod.mk.inj hspot
    cases spot with
    | vacant place =>
        cases hrest
        exact ⟨place, false, _, hfind, .inl rfl, rfl⟩
    | present place entry =>
        cases entry with
        | file old executable =>
            cases hrest
            exact ⟨place, executable, _, hfind, .inr ⟨old, rfl⟩, rfl⟩
        | directory => cases hrest
        | link target => cases hrest

theorem eq_of_writeFile_eq_error {path content : Text} {e : FileError}
    (h : writeFile path content fs = (.error e, fs')) : fs' = fs := by
  rw [writeFile] at h
  split at h
  · rw [refuseSlash, bind_apply] at h
    cases hcheck : checkPath path with
    | error fault =>
        simp only [ofView, hcheck] at h
        exact (congrArg Prod.snd h).symm
    | ok _ =>
        simp only [ofView, hcheck, bind_apply] at h
        rcases hdirectory : directoryOf path fs with ⟨_ | above, between⟩
        · rw [hdirectory] at h
          cases h
          exact (congrArg Prod.snd hdirectory).symm
        · rw [hdirectory] at h
          cases h
          exact (congrArg Prod.snd hdirectory).symm
  · rw [bind_apply] at h
    cases hfind : fs.find true path with
    | error fault =>
        simp only [ofView, hfind] at h
        exact (congrArg Prod.snd h).symm
    | ok spot =>
        simp only [ofView, hfind] at h
        split at h
        · cases h
        · cases h
          rfl
        · cases h

section

variable {mode : WalkMode} {path : Text} {place : Location} {spot : Spot} {executable : Bool}

theorem entryAt_of_leadsTo (hleads : fs.LeadsTo mode path spot)
    (hspot : spot = .vacant place ∨ ∃ old, spot = .present place (.file old executable)) :
    fs.entryAt place = none ∨ ∃ old, fs.entryAt place = some (.file old executable) := by
  rcases hspot with rfl | ⟨old, rfl⟩
  · exact .inl hleads.entryAt_vacant
  · exact .inr ⟨old, hleads.entryAt_present nofun⟩

theorem entryAt_put_of_leadsTo (hleads : fs.LeadsTo mode path spot)
    (hspot : spot = .vacant place ∨ ∃ old, spot = .present place (.file old executable))
    (hnames : 1 < Path.nameCount path) (entry : Entry) :
    (fs.put place entry).entryAt place = some entry := by
  rcases hspot with rfl | ⟨old, rfl⟩
  · obtain ⟨above, name, rfl, habove⟩ := hleads.exists_above_vacant (.inr hnames)
    exact entryAt_put_self fs above name entry habove
  · have hold := hleads.entryAt_present nofun
    refine entryAt_put_of_some ?_ hold
    rintro rfl
    cases (entryAt_root fs).symm.trans hold

theorem exists_writes {content : Text} (h : writeFile path content fs = (.ok (), fs'))
    (hnames : 1 < Path.nameCount path) : ∃ place, Writes path content place fs fs' := by
  obtain ⟨place, executable, spot, hfind, hspot, rfl⟩ := exists_place_of_writeFile h
  obtain ⟨hcheck, hleads⟩ := find_eq_ok_iff.mp hfind
  have hfile : fs.entryAt place ≠ some .directory := by
    rcases entryAt_of_leadsTo hleads hspot with hnone | ⟨old, hsome⟩
    · simp [hnone]
    · simp [hsome]
  refine ⟨place, ?_, ?_, ?_, rfl, ?_⟩
  · rcases hspot with rfl | ⟨old, rfl⟩
    · rw [FileSystem.destination, hfind]
    · rw [FileSystem.destination, hfind]
  · exact ⟨executable, entryAt_put_of_leadsTo hleads hspot hnames _⟩
  · intro other found hother hfound
    exact entryAt_put_of_ne hfile hother hfound
  · intro later text mark hway hdirectory hlater
    refine status_eq_ok_iff.mpr ⟨hcheck, ?_⟩
    rw [LeadsTo, hdirectory]
    refine Walks.to_file hleads ?_ hway hlater
    rcases hspot with hvacant | ⟨old, hold⟩
    · exact .inl hvacant
    · exact .inr ⟨old, executable, hold⟩

end

/-- What is at and below the place is taken away and nothing else. -/
structure Removes (place : Location) (fs fs' : FileSystem) : Prop where
  kept : ∀ {other}, ¬ place <+: other → fs'.entryAt other = fs.entryAt other
  workingDirectory : fs'.workingDirectory = fs.workingDirectory
  shrinks : fs'.Extends fs

theorem removes_erase (fs : FileSystem) (place : Location) : Removes place fs (fs.erase place) where
  kept := fun hother => fs.entryAt_change_of_not_prefix _ hother
  workingDirectory := rfl
  shrinks := erase_extends fs place

theorem removes_clearBelow (fs : FileSystem) (place : Location) :
    Removes place fs (fs.clearBelow place) where
  kept := by
    intro other hother
    rw [entryAt_clearBelow, if_neg fun h => hother h.1]
  workingDirectory := rfl
  shrinks := clearBelow_extends fs place

theorem Removes.trans {place : Location} {fs'' : FileSystem} (hfirst : Removes place fs fs')
    (hsecond : Removes place fs' fs'') : Removes place fs fs'' where
  kept := fun hother => (hsecond.kept hother).trans (hfirst.kept hother)
  workingDirectory := hsecond.workingDirectory.trans hfirst.workingDirectory
  shrinks := hsecond.shrinks.trans hfirst.shrinks

/-- What removing did, whether it failed or not: nothing, or it took away something at and below the
place that the path leads to. -/
def Removal (path : Text) (result : Except FileError Unit) (fs fs' : FileSystem) : Prop :=
  (∃ e, result = .error e) ∧ fs' = fs ∨
    ∃ place entry, fs.status false path = .ok (place, entry) ∧ Removes place fs fs'

theorem Removal.of_ok {path : Text} (h : Removal path (.ok ()) fs fs') :
    ∃ place entry, fs.status false path = .ok (place, entry) ∧ Removes place fs fs' := by
  rcases h with ⟨⟨e, he⟩, -⟩ | hremoves
  · cases he
  · exact hremoves

theorem removal_of_status {path : Text} {result : Except FileError Unit}
    {f : Location × Entry → Change Unit}
    (h : (ofView (·.status false path) >>= f) fs = (result, fs'))
    (hf : ∀ place entry, fs.status false path = .ok (place, entry) →
      f (place, entry) fs = (result, fs') → Removal path result fs fs') :
    Removal path result fs fs' := by
  rw [bind_apply] at h
  cases hstatus : fs.status false path with
  | error e =>
      simp only [ofView, hstatus] at h
      cases h
      exact .inl ⟨⟨e, rfl⟩, rfl⟩
  | ok found =>
      obtain ⟨place, entry⟩ := found
      simp only [ofView, hstatus] at h
      exact hf place entry hstatus h

theorem removal_of_throw {path : Text} {result : Except FileError Unit} {e : FileError}
    (h : (throw e : Change Unit) fs = (result, fs')) : Removal path result fs fs' := by
  cases h
  exact .inl ⟨⟨e, rfl⟩, rfl⟩

theorem removal_removeFile {path : Text} {result : Except FileError Unit}
    (h : removeFile path fs = (result, fs')) : Removal path result fs fs' := by
  refine removal_of_status h fun place entry hfound hrest => ?_
  cases entry with
  | directory => exact removal_of_throw hrest
  | file content executable =>
      cases hrest
      exact .inr ⟨place, _, hfound, removes_erase fs place⟩
  | link target =>
      cases hrest
      exact .inr ⟨place, _, hfound, removes_erase fs place⟩

theorem directoryOf_eq {path : Text} {above : Location}
    (h : directoryOf path fs = (.ok above, fs')) :
    Walks fs { followLast := true } maxLinks (startOf fs.workingDirectory path)
      (steps (dropEndSlashes path)).dropLast (.present above .directory) := by
  have hview := congrArg Prod.fst h
  simp only [directoryOf, ofView, walkFrom] at hview
  rw [← walk_eq_ok_iff]
  cases hwalk : fs.walk { followLast := true } maxLinks (startOf fs.workingDirectory path)
      (steps (dropEndSlashes path)).dropLast with
  | error e =>
      rw [hwalk] at hview
      cases hview
  | ok spot =>
      rw [hwalk] at hview
      cases spot with
      | vacant place => cases hview
      | present place entry =>
          cases entry with
          | directory =>
              cases hview
              rfl
          | file content executable => cases hview
          | link target => cases hview

theorem of_throw {e : FileError} {result : Except FileError α}
    (h : (throw e : Change α) fs = (result, fs')) : (∃ e, result = .error e) ∧ fs' = fs := by
  cases h
  exact ⟨⟨e, rfl⟩, rfl⟩

theorem removeDirectory_cases {path : Text} {result : Except FileError Unit}
    (h : removeDirectory path fs = (result, fs')) :
    ((∃ e, result = .error e) ∧ fs' = fs) ∨
      ∃ above name, Walks fs { followLast := true } maxLinks (startOf fs.workingDirectory path)
          (steps (dropEndSlashes path)).dropLast (.present above .directory) ∧
        (steps (dropEndSlashes path)).getLast? = some name ∧ isName name = true ∧
        fs.entryAt (above ++ [name]) = some .directory ∧ fs' = fs.erase (above ++ [name]) := by
  rw [removeDirectory, bind_apply] at h
  rcases habove : directoryOf path fs with ⟨e | above, between⟩
  · rw [habove] at h
    cases h
    exact .inl ⟨⟨e, rfl⟩, congrArg Prod.snd habove.symm⟩
  · obtain rfl : fs = between := congrArg Prod.snd habove
    rw [habove] at h
    dsimp only at h
    generalize hlast : (steps (dropEndSlashes path)).getLast? = last at h ⊢
    split at h
    · exact .inl (of_throw h)
    · exact .inl (of_throw h)
    · exact .inl (of_throw h)
    · rename_i name hcurrent hparent
      rw [look_bind_apply] at h
      generalize hfound : (fs.entryAt (above ++ [name]), fs.namesIn (above ++ [name])) = found at h
      split at h
      · exact .inl (of_throw h)
      · cases h
        exact .inr ⟨above, name, directoryOf_eq habove, rfl,
          by simpa [isName] using ⟨hcurrent, hparent⟩, congrArg Prod.fst hfound, rfl⟩
      · exact .inl (of_throw h)
      · exact .inl (of_throw h)

theorem place_eq_of_last_name {path name : Text} {place above : Location} {entry : Entry}
    (hpath : fs.LeadsTo { followLast := false } path (.present place entry))
    (habove : Walks fs { followLast := true } maxLinks (startOf fs.workingDirectory path)
      (steps (dropEndSlashes path)).dropLast (.present above .directory))
    (hlast : (steps (dropEndSlashes path)).getLast? = some name) (hname : isName name = true)
    (hentry : fs.entryAt (above ++ [name]) = some .directory) : place = above ++ [name] := by
  obtain ⟨more, hsteps, hmore⟩ := Path.steps_dropEndSlashes path
  have hsplit : steps path = (steps (dropEndSlashes path)).dropLast ++ name :: more := by
    obtain ⟨front, hfront⟩ := List.getLast?_eq_some_iff.mp hlast
    rw [hsteps, hfront, List.dropLast_concat, List.append_assoc, List.singleton_append]
  obtain ⟨left, hwalk⟩ := habove.walk_append false (List.cons_ne_nil name more)
  have hend : Walks fs { followLast := false } left above (name :: more)
      (.present place entry) := by
    rw [← walk_eq_ok_iff, ← hwalk, ← hsplit]
    exact walk_eq_ok_iff.mpr hpath
  simp only [isName, decide_eq_true_eq] at hname
  cases hend with
  | stay => exact absurd rfl hname.1
  | climb => exact absurd rfl hname.2
  | file _ hfound => cases hentry.symm.trans hfound
  | stop _ _ hfound => cases hentry.symm.trans hfound
  | follow _ _ hfound => cases hentry.symm.trans hfound
  | enter _ _ hrest =>
      rcases hmore with rfl | rfl
      · cases hrest
        rfl
      · cases walks_stay_iff.mp hrest
        rfl

/-- The directory goes last, and it is the one that the path led to before it was cleared: what is
left on the way is as it was. -/
theorem removal_removeTree {path : Text} {result : Except FileError Unit}
    (h : removeTree path fs = (result, fs')) : Removal path result fs fs' := by
  refine removal_of_status h fun place entry hfound hrest => ?_
  cases entry with
  | file content executable => exact removal_of_throw hrest
  | link target =>
      cases hrest
      exact .inr ⟨place, _, hfound, removes_erase fs place⟩
  | directory =>
      rcases hlast : removeDirectory path (fs.clearBelow place) with ⟨outcome, after⟩
      obtain rfl : after = fs' := by
        have hattempt : attempt (removeDirectory path) (fs.clearBelow place) =
            (.ok outcome, after) := by
          simp only [attempt, hlast]
        have hupdate : update (·.clearBelow place) fs = (.ok (), fs.clearBelow place) := rfl
        have hcleared := (bind_of_ok hupdate _).symm.trans hrest
        have hfinal := (bind_of_ok hattempt _).symm.trans hcleared
        split at hfinal
        · exact congrArg Prod.snd hfinal
        · exact congrArg Prod.snd hfinal
        · exact congrArg Prod.snd hfinal
      have hcleared := removes_clearBelow fs place
      refine .inr ⟨place, _, hfound, ?_⟩
      rcases removeDirectory_cases hlast with ⟨-, rfl⟩ | ⟨above, name, hwalk, hname, hisName,
        hentry, rfl⟩
      · exact hcleared
      · have hkept := clearBelow_extends fs place
        have hplace : place = above ++ [name] :=
          place_eq_of_last_name (status_eq_ok_iff.mp hfound).2 (hwalk.of_extends hkept) hname
            hisName (hkept.entries hentry)
        exact hcleared.trans (hplace ▸ removes_erase _ _)

end TemplateSuite.Change
