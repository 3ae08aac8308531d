import TemplateSuite.Proofs.FileSystem.MakeDirectories

namespace TemplateSuite

namespace FileSystem

variable {fs : FileSystem} {place : Location}

theorem namesIn_eq_nil (h : ∀ name, fs.entryAt (place ++ [name]) = none) :
    fs.namesIn place = [] := by
  have hchildren : (fs.tree.at? place).elim [] (·.children.map Prod.fst) = [] := by
    cases hnode : fs.tree.at? place with
    | none => rfl
    | some node =>
        cases hlist : node.children with
        | nil => simp [hlist]
        | cons child others =>
            have hnone := h child.1
            rw [entryAt, Node.at?_append, hnode, Option.bind_some, Node.at?, hlist,
              List.lookup_cons_self] at hnone
            cases hnone
  rw [namesIn, hchildren]
  simp [sortNames]

end FileSystem

namespace Change

open FileSystem StateAction

variable {fs : FileSystem} {path : Text}

theorem removeTree_apply (hpath : Acceptable path)
    (hall : ∀ place ∈ fs.way path, fs.entryAt place = some .directory) :
    removeTree path fs =
      match removeDirectory path (fs.clearBelow (fs.goal path)) with
      | (.error .notFound, after) => (.ok (), after)
      | outcome => outcome := by
  have hstatus : ofView (·.status false path) fs = (.ok (fs.goal path, .directory), fs) := by
    rw [ofView, status_of_directories hpath hall]
  rw [removeTree, bind_of_ok hstatus]
  dsimp only
  have hupdate : update (·.clearBelow (fs.goal path)) fs =
      (.ok (), fs.clearBelow (fs.goal path)) := rfl
  rw [bind_of_ok hupdate, bind_apply, attempt_apply]
  rcases removeDirectory path (fs.clearBelow (fs.goal path)) with ⟨e | _, after⟩
  · cases e <;> rfl
  · rfl

theorem exists_steps_of_way_ne_nil (fs : FileSystem) (h : fs.way path ≠ []) :
    ∃ front last, steps (dropEndSlashes path) = front ++ [last] := by
  rcases List.eq_nil_or_concat (steps (dropEndSlashes path)) with hnil | ⟨front, last, hsteps⟩
  · rw [way, ← course_dropEndSlashes, ← stations_steps, hnil] at h
    exact absurd rfl h
  · exact ⟨front, last, by rw [hsteps, List.concat_eq_append]⟩

section LastStep

variable {front : List Text} {last : Text}

theorem mem_way_of_steps (fs : FileSystem)
    (hsteps : steps (dropEndSlashes path) = front ++ [last]) {place : Location} :
    place ∈ fs.way path ↔ place ∈ stations (startOf fs.workingDirectory path) front ∨
      isName last ∧ place = fs.goal path := by
  have hgoal : fs.goal path =
      arrival (arrival (startOf fs.workingDirectory path) front) [last] := by
    rw [goal, ← course_dropEndSlashes, ← arrival_steps, hsteps, arrival_append]
  rw [way, ← course_dropEndSlashes, ← stations_steps, hsteps, stations_append, List.mem_append,
    hgoal]
  rcases step_cases last with rfl | rfl | hname
  · simp [isName]
  · simp [isName]
  · rw [stations_enter _ _ hname, arrival_enter _ _ hname]
    simp [hname]

theorem directoryOf_of_directories (hpath : Acceptable path)
    (hsteps : steps (dropEndSlashes path) = front ++ [last])
    (h : ∀ place ∈ stations (startOf fs.workingDirectory path) front,
      fs.entryAt place = some .directory) :
    directoryOf path fs = (.ok (arrival (startOf fs.workingDirectory path) front), fs) := by
  have hfits : NamesFit front := by
    have hwhole := namesFit_steps hpath.dropEndSlashes.namesFit
    rw [hsteps] at hwhole
    exact hwhole.of_subset (List.subset_append_left _ _)
  simp only [directoryOf, ofView, walkFrom, hsteps, List.dropLast_concat,
    walk_eq_ok_iff.mpr (walks_of_directories hfits h)]
  rfl

theorem directoryOf_of_missing (hpath : Acceptable path)
    (hsteps : steps (dropEndSlashes path) = front ++ [last])
    (hopen : ∀ place ∈ stations (startOf fs.workingDirectory path) front,
      fs.entryAt place = none ∨ fs.entryAt place = some .directory)
    (hmissing : ∃ place ∈ stations (startOf fs.workingDirectory path) front,
      fs.entryAt place = none) :
    directoryOf path fs = (.error .notFound, fs) := by
  have hfits : NamesFit (front ++ []) := by
    have hwhole := namesFit_steps hpath.dropEndSlashes.namesFit
    rw [hsteps] at hwhole
    rw [List.append_nil]
    exact hwhole.of_subset (List.subset_append_left _ _)
  have hwalk : fs.walk { followLast := true } maxLinks _ (front ++ []) = .error .notFound ∨ _ :=
    walk_of_missing hfits hopen hmissing
  rw [List.append_nil] at hwalk
  simp only [directoryOf, ofView, walkFrom, hsteps, List.dropLast_concat]
  rcases hwalk with herror | ⟨-, place, hvacant⟩
  · rw [herror]
    rfl
  · rw [hvacant]
    rfl

end LastStep

theorem entryAt_clearBelow_of_mem_way
    (hall : ∀ place ∈ fs.way path, fs.entryAt place = some .directory) {place : Location}
    (hmem : place ∈ fs.way path) :
    (fs.clearBelow (fs.goal path)).entryAt place =
      if (fs.goal path).Encloses place then none else some .directory := by
  rw [entryAt_clearBelow, hall place hmem]

/-- A directory that the way to it leads through from below is emptied and stays. -/
theorem removeTree_of_encloses (hpath : Acceptable path)
    (hall : ∀ place ∈ fs.way path, fs.entryAt place = some .directory)
    (hbelow : ∃ place ∈ fs.way path, (fs.goal path).Encloses place) :
    removeTree path fs = (.ok (), fs.clearBelow (fs.goal path)) := by
  obtain ⟨place, hmem, hencloses⟩ := hbelow
  obtain ⟨front, last, hsteps⟩ := exists_steps_of_way_ne_nil fs (List.ne_nil_of_mem hmem)
  have hdirectory : directoryOf path (fs.clearBelow (fs.goal path)) =
      (.error .notFound, fs.clearBelow (fs.goal path)) := by
    refine directoryOf_of_missing hpath hsteps (fun other hother => ?_) ⟨place, ?_, ?_⟩
    · rw [entryAt_clearBelow_of_mem_way hall ((mem_way_of_steps fs hsteps).mpr (.inl hother))]
      split
      · exact .inl rfl
      · exact .inr rfl
    · rcases (mem_way_of_steps fs hsteps).mp hmem with hfront | ⟨-, rfl⟩
      · exact hfront
      · exact absurd rfl hencloses.2
    · rw [entryAt_clearBelow_of_mem_way hall hmem, if_pos hencloses]
  rw [removeTree_apply hpath hall, removeDirectory, bind_of_error hdirectory]

theorem removeDirectory_of_name (hpath : Acceptable path) {front : List Text} {name : Text}
    (hsteps : steps (dropEndSlashes path) = front ++ [name]) (hname : isName name)
    (hfront : ∀ place ∈ stations (startOf fs.workingDirectory path) front,
      fs.entryAt place = some .directory)
    (hentry : fs.entryAt (fs.goal path) = some .directory)
    (hempty : fs.namesIn (fs.goal path) = []) :
    removeDirectory path fs = (.ok (), fs.erase (fs.goal path)) := by
  have hplace : arrival (startOf fs.workingDirectory path) front ++ [name] = fs.goal path :=
    ((way_of_last_name fs hsteps hname).2).symm
  obtain ⟨hcurrent, hparent⟩ := isName_iff.mp hname
  have hlast : (steps (dropEndSlashes path)).getLast? = some name := by
    rw [hsteps, List.getLast?_concat]
  rw [removeDirectory, bind_of_ok (directoryOf_of_directories hpath hsteps hfront)]
  generalize (steps (dropEndSlashes path)).getLast? = last at hlast ⊢
  split
  · cases hlast
  · exact absurd (Option.some.inj hlast).symm hcurrent
  · exact absurd (Option.some.inj hlast).symm hparent
  · obtain rfl := Option.some.inj hlast
    rw [hplace, look_bind_apply, hentry, hempty]
    rfl

/-- Any other directory is removed, if its name stands at the end of the path. -/
theorem removeTree_of_not_encloses (hpath : Acceptable path)
    (hall : ∀ place ∈ fs.way path, fs.entryAt place = some .directory)
    (hbelow : ¬ ∃ place ∈ fs.way path, (fs.goal path).Encloses place)
    {front : List Text} {name : Text} (hcourse : Path.course path = front ++ [name])
    (hname : isName name) :
    removeTree path fs =
      if Path.EndsIdly path then
        (.error (if dropEndSlashes path = ['/'] then .busy else .invalidArgument),
          fs.clearBelow (fs.goal path))
      else (.ok (), (fs.clearBelow (fs.goal path)).erase (fs.goal path)) := by
  have hgoal : fs.goal path ∈ fs.way path := by
    rw [way, goal, hcourse, stations_append, arrival_append, stations_enter _ _ hname,
      arrival_enter _ _ hname]
    simp
  -- the way does not lead through the directory, so it is still there after clearing
  have hkept : ∀ place ∈ fs.way path,
      (fs.clearBelow (fs.goal path)).entryAt place = some .directory := by
    intro place hmem
    rw [entryAt_clearBelow_of_mem_way hall hmem, if_neg fun h => hbelow ⟨place, hmem, h⟩]
  obtain ⟨before, last, hsteps⟩ := exists_steps_of_way_ne_nil fs (List.ne_nil_of_mem hgoal)
  have hfront : ∀ place ∈ stations (startOf fs.workingDirectory path) before,
      (fs.clearBelow (fs.goal path)).entryAt place = some .directory :=
    fun place hmem => hkept place ((mem_way_of_steps fs hsteps).mpr (.inl hmem))
  rw [removeTree_apply hpath hall]
  by_cases hidle : Path.EndsIdly path
  · obtain rfl : last = ['.'] := by
      rw [Path.EndsIdly, hsteps, List.getLast?_concat] at hidle
      exact Option.some.inj hidle
    rw [if_pos hidle, removeDirectory,
      bind_of_ok (directoryOf_of_directories hpath hsteps hfront), hsteps, List.getLast?_concat]
    by_cases hroot : dropEndSlashes path = ['/']
    · simp only [if_pos hroot]
      rfl
    · simp only [if_neg hroot]
      rfl
  · obtain ⟨other, hother, -⟩ := exists_steps_of_not_endsIdly hcourse hidle
    obtain ⟨rfl, hlast⟩ := List.append_inj' (hsteps.symm.trans hother) rfl
    obtain rfl : last = name := List.singleton_inj.mp hlast
    have hempty : (fs.clearBelow (fs.goal path)).namesIn (fs.goal path) = [] := by
      refine namesIn_eq_nil fun name => ?_
      rw [entryAt_clearBelow, if_pos ⟨List.prefix_append _ _, by simp⟩]
    rw [if_neg hidle]
    have hremove : removeDirectory path (fs.clearBelow (fs.goal path)) =
        (.ok (), (fs.clearBelow (fs.goal path)).erase (fs.goal path)) :=
      removeDirectory_of_name hpath hsteps hname hfront (hkept _ hgoal) hempty
    rw [hremove]

end Change

end TemplateSuite
