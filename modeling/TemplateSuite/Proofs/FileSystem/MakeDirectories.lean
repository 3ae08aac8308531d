import TemplateSuite.Proofs.FileSystem.Acceptable
import TemplateSuite.Proofs.FileSystem.Change
import TemplateSuite.Proofs.FileSystem.Overlay

namespace TemplateSuite

namespace Change

open FileSystem StateAction

variable {fs fs' : FileSystem} {path : Text} {above : List Text}

theorem makeDirectory_eq (h : Acceptable path) (fs : FileSystem) :
    makeDirectory path fs =
      match fs.walk { followLast := false } maxLinks (startOf fs.workingDirectory path)
        (steps (dropEndSlashes path)) with
      | .error e => (.error e, fs)
      | .ok (.present _ _) => (.error .exists, fs)
      | .ok (.vacant place) => (.ok (), fs.put place .directory) := by
  have hfind : fs.find false (dropEndSlashes path) =
      fs.walk { followLast := false } maxLinks (startOf fs.workingDirectory path)
        (steps (dropEndSlashes path)) := by
    rw [find, h.dropEndSlashes.checkPath_eq]
    simp only [bind, Except.bind, walkFrom, startOf_dropEndSlashes]
  simp only [makeDirectory, bind_apply, ofView, h.checkPath_eq, hfind]
  cases fs.walk { followLast := false } maxLinks (startOf fs.workingDirectory path)
      (steps (dropEndSlashes path)) with
  | error e => rfl
  | ok spot => cases spot <;> rfl

theorem makeDirectory_of_directories (h : Acceptable path)
    (hall : ∀ place ∈ fs.way path, fs.entryAt place = some .directory) :
    makeDirectory path fs = (.error .exists, fs) := by
  rw [way, ← course_dropEndSlashes, ← stations_steps] at hall
  have hfits := namesFit_steps h.dropEndSlashes.namesFit
  rw [makeDirectory_eq h, walk_eq_ok_iff.mpr (walks_of_directories hfits hall)]

theorem makeDirectory_of_vacant (h : Acceptable path) {front : List Text} {name : Text}
    (hsteps : steps (dropEndSlashes path) = front ++ [name]) (hname : isName name)
    (hfront : ∀ place ∈ stations (startOf fs.workingDirectory path) front,
      fs.entryAt place = some .directory)
    (hnone : fs.entryAt (fs.goal path) = none) :
    makeDirectory path fs = (.ok (), fs.put (fs.goal path) .directory) := by
  have hfits := namesFit_steps h.dropEndSlashes.namesFit
  have hreaches : FileSystem.Reaches fs (startOf fs.workingDirectory path)
      (steps (dropEndSlashes path)) (.vacant (fs.goal path)) := by
    rw [goal, ← course_dropEndSlashes, ← arrival_steps] at hnone ⊢
    exact .vacant hsteps hname hfront hnone
  rw [makeDirectory_eq h, hreaches.walk_eq hfits]

theorem makeDirectory_of_missing (h : Acceptable path) {front back : List Text}
    (hsteps : steps (dropEndSlashes path) = front ++ back) (hback : back ≠ [])
    (hopen : ∀ place ∈ stations (startOf fs.workingDirectory path) front,
      fs.entryAt place = none ∨ fs.entryAt place = some .directory)
    (hmissing : ∃ place ∈ stations (startOf fs.workingDirectory path) front,
      fs.entryAt place = none) :
    makeDirectory path fs = (.error .notFound, fs) := by
  have hfits := namesFit_steps h.dropEndSlashes.namesFit
  rw [hsteps] at hfits
  rw [makeDirectory_eq h, hsteps,
    (walk_of_missing hfits hopen hmissing).resolve_right fun hnil => hback hnil.1]

theorem makeDirectory_eq_ok (hfree : fs.LinkFree [])
    (h : makeDirectory path fs = (.ok (), fs')) :
    Acceptable path ∧ fs.entryAt (fs.goal path) = none ∧
      fs' = fs.put (fs.goal path) .directory ∧ ∃ front name,
        steps (dropEndSlashes path) = front ++ [name] ∧ isName name ∧
          ∀ place ∈ stations (startOf fs.workingDirectory path) front,
            fs.entryAt place = some .directory := by
  obtain ⟨_, _, hchecked, hrest⟩ := bind_eq_ok h
  obtain ⟨hcheck, rfl⟩ := Prod.mk.inj hchecked
  obtain ⟨spot, _, hspot, hlast⟩ := bind_eq_ok hrest
  obtain ⟨hfind, rfl⟩ := Prod.mk.inj hspot
  obtain ⟨-, hleads⟩ := find_eq_ok_iff.mp hfind
  have hnames := Walks.namesFit hleads hfree
  cases spot with
  | present place entry => cases hlast
  | vacant place =>
      cases hlast
      rw [LeadsTo, startOf_dropEndSlashes] at hleads
      have hacceptable : Acceptable path := by
        refine ⟨hcheck, ?_⟩
        rw [← course_dropEndSlashes, ← filter_steps]
        exact hnames.of_subset List.filter_sublist.subset
      refine ⟨hacceptable, ?_⟩
      rw [goal, ← course_dropEndSlashes, ← arrival_steps]
      cases Walks.reaches hleads hfree with
      | vacant hpath hname hfront hnone =>
          exact ⟨hnone, rfl, _, _, hpath, hname, hfront⟩

/-- The outcome of making a directory where one that is there already will do. -/
def settled (path : Text) :
    Except FileError Unit × FileSystem → Except FileError Unit × FileSystem
  | (.ok _, fs) => (.ok (), fs)
  | (.error e, fs) => if fs.isDirectory path then (.ok (), fs) else (.error e, fs)

theorem unless_directory_apply (path : Text) (e : FileError) (fs : FileSystem) :
    (do unless (← ofView (.ok <| ·.isDirectory path)) do throw e : Change Unit) fs =
      settled path (.error e, fs) := by
  rw [look_bind_apply, settled]
  cases fs.isDirectory path <;> rfl

theorem attempt_apply {α : Type} (action : Change α) (fs : FileSystem) :
    attempt action fs = (.ok (action fs).1, (action fs).2) := rfl

theorem makeDirectoriesFrom_cons (hpath : path ≠ []) (above : List Text) (fs : FileSystem) :
    makeDirectoriesFrom (path :: above) fs =
      match makeDirectory path fs with
      | (.error .notFound, after) =>
        match makeDirectoriesFrom above after with
        | (.ok _, between) => settled path (makeDirectory path between)
        | (.error e, between) => (.error e, between)
      | outcome => settled path outcome := by
  rw [makeDirectoriesFrom, if_neg hpath, bind_apply, attempt_apply]
  rcases makeDirectory path fs with ⟨e | _, after⟩
  · cases e with
    | notFound =>
        dsimp only
        rw [bind_apply]
        rcases makeDirectoriesFrom above after with ⟨e | _, between⟩
        · rfl
        · dsimp only
          rw [bind_apply, attempt_apply]
          rcases makeDirectory path between with ⟨e | _, last⟩
          · exact unless_directory_apply path e last
          · rfl
    | _ => exact unless_directory_apply path _ after
  · rfl

theorem settled_eq_ok {outcome : Except FileError Unit × FileSystem}
    (h : settled path outcome = (.ok (), fs')) :
    outcome = (.ok (), fs') ∨ outcome.2 = fs' ∧ fs'.isDirectory path = true := by
  rcases outcome with ⟨e | _, after⟩
  · rw [settled] at h
    split at h
    · rename_i hdirectory
      cases h
      exact .inr ⟨rfl, hdirectory⟩
    · cases h
  · exact .inl h

theorem makeDirectoriesFrom_eq_ok (hpath : path ≠ [])
    (h : makeDirectoriesFrom (path :: above) fs = (.ok (), fs')) :
    ∃ between, Adds (path :: above) fs between ∧
      (makeDirectory path between = (.ok (), fs') ∨
        between = fs' ∧ fs'.isDirectory path = true) := by
  have hone : ∀ {before : FileSystem}, Adds (path :: above) fs before →
      settled path (makeDirectory path before) = (.ok (), fs') →
        ∃ between, Adds (path :: above) fs between ∧
          (makeDirectory path between = (.ok (), fs') ∨
            between = fs' ∧ fs'.isDirectory path = true) := by
    intro before hbefore hsettled
    rcases settled_eq_ok hsettled with hmade | ⟨hsame, hdirectory⟩
    · exact ⟨before, hbefore, .inl hmade⟩
    · refine ⟨fs', ?_, .inr ⟨rfl, hdirectory⟩⟩
      rw [← hsame]
      exact hbefore.trans (makes_makeDirectory List.mem_cons_self before)
  rw [makeDirectoriesFrom_cons hpath] at h
  split at h
  · rename_i after hfirst
    have hafter : Adds (path :: above) fs after := by
      have hmakes : Adds (path :: above) fs (makeDirectory path fs).2 :=
        makes_makeDirectory List.mem_cons_self fs
      rwa [hfirst] at hmakes
    split at h
    · rename_i between habove
      refine hone (hafter.trans ?_) h
      have hmakes := (makes_makeDirectoriesFrom above after).mono (List.subset_cons_self path above)
      rwa [habove] at hmakes
    · cases h
  · exact hone (.refl _ fs) h

theorem Adds.linkFree {paths : List Text} (h : Adds paths fs fs') (hfree : fs.LinkFree []) :
    fs'.LinkFree [] :=
  fun place target hplace hlink => hfree place target hplace ((h.sameLinks place target).mpr hlink)

theorem Adds.way_eq {paths : List Text} (h : Adds paths fs fs') (path : Text) :
    fs'.way path = fs.way path :=
  way_congr h.kept.workingDirectory path

theorem Adds.goal_eq {paths : List Text} (h : Adds paths fs fs') (path : Text) :
    fs'.goal path = fs.goal path :=
  goal_congr h.kept.workingDirectory path

theorem Adds.base_eq {paths : List Text} (h : Adds paths fs fs') (path : Text) :
    fs'.base path = fs.base path :=
  base_congr h.kept.workingDirectory path

theorem directories_of_makeDirectoriesFrom (hfree : fs.LinkFree []) (hpath : path ≠ [])
    (hbase : fs.entryAt (fs.base path) = some .directory)
    (h : makeDirectoriesFrom (path :: above) fs = (.ok (), fs')) :
    Acceptable path ∧ ∀ place ∈ fs.way path, fs'.entryAt place = some .directory := by
  obtain ⟨between, hadds, hmade | ⟨rfl, hdirectory⟩⟩ := makeDirectoriesFrom_eq_ok hpath h
  · obtain ⟨hacceptable, hnone, rfl, front, name, hsteps, hname, hfront⟩ :=
      makeDirectory_eq_ok (hadds.linkFree hfree) hmade
    refine ⟨hacceptable, ?_⟩
    rw [← hadds.base_eq] at hbase
    rw [← hadds.way_eq]
    obtain ⟨hway, hgoal⟩ := way_of_last_name between hsteps hname
    have hbefore := directory_before_last_name hsteps hname (hadds.kept.entries hbase) hfront
    have habove : between.entryAt (between.goal path).dropLast = some .directory := by
      rwa [hgoal, List.dropLast_concat]
    intro place hmem
    rw [(overlays_put (by simp [hnone]) (by simp [hgoal]) habove).entryAt_eq]
    split
    · rfl
    · rename_i hne
      rw [hway] at hmem
      rcases List.mem_append.mp hmem with hin | hlast
      · exact hfront place hin
      · exact absurd (List.mem_singleton.mp hlast) hne
  · obtain ⟨hacceptable, hall⟩ := of_isDirectory (hadds.linkFree hfree) hdirectory
    rw [hadds.way_eq] at hall
    exact ⟨hacceptable, hall⟩

theorem acceptable_of_makeDirectoriesFrom (hfree : fs.LinkFree []) (hpath : path ≠ [])
    (h : makeDirectoriesFrom (path :: above) fs = (.ok (), fs')) : Acceptable path := by
  obtain ⟨between, hadds, hmade | ⟨rfl, hdirectory⟩⟩ := makeDirectoriesFrom_eq_ok hpath h
  · exact (makeDirectory_eq_ok (hadds.linkFree hfree) hmade).1
  · exact (of_isDirectory (hadds.linkFree hfree) hdirectory).1

theorem goal_mem_way_of_endsInName (fs : FileSystem) (h : EndsInName path) :
    fs.goal path ∈ fs.way path := by
  obtain ⟨name, hlast, hname⟩ := h
  obtain ⟨front, hsteps⟩ := List.getLast?_eq_some_iff.mp hlast
  rw [(way_of_last_name _ hsteps hname).1]
  exact List.mem_append_right _ (List.mem_singleton_self _)

theorem way_subset_of_mem_ancestors (fs : FileSystem) {path other : Text}
    (h : other ∈ path :: Path.ancestors path) : fs.way other ⊆ fs.way path := by
  rcases List.mem_cons.mp h with rfl | hmem
  · exact List.Subset.refl _
  · obtain ⟨habsolute, ⟨back, hback⟩, -⟩ := Path.begins_of_mem_ancestors hmem
    rw [way, way, startOf, startOf, habsolute, ← hback, stations_append]
    exact List.subset_append_left _ _

theorem overlays_makeDirectories (hfree : fs.LinkFree []) (hpath : path ≠ [])
    (hbase : fs.entryAt (fs.base path) = some .directory)
    (h : makeDirectories path fs = (.ok (), fs')) :
    Overlays (fun place => if place ∈ fs.way path then some (some .directory) else none)
      fs fs' where
  entryAt_eq := by
    have hadds := makes_makeDirectories path fs
    rw [h] at hadds
    intro place
    split
    · rename_i hmem
      exact (directories_of_makeDirectoriesFrom hfree hpath hbase h).2 place hmem
    · rename_i hout
      rw [Option.getD_none]
      cases hold : fs.entryAt place with
      | some entry => exact hadds.kept.entries hold
      | none =>
          cases hnew : fs'.entryAt place with
          | none => rfl
          | some entry =>
              rcases hadds.added hnew with hsame | ⟨-, other, hother, hends, hdenotes⟩
              · exact hsame.symm.trans hold
              · obtain rfl := (denotes_iff_goal hfree).mp hdenotes
                exact absurd (way_subset_of_mem_ancestors fs hother
                  (goal_mem_way_of_endsInName fs hends)) hout
  workingDirectory := by
    have hadds := makes_makeDirectories path fs
    rw [h] at hadds
    exact hadds.kept.workingDirectory

theorem exists_steps_of_not_endsIdly {front : List Text} {piece : Text}
    (hcourse : Path.course path = front ++ [piece]) (h : ¬ Path.EndsIdly path) :
    ∃ before, steps (dropEndSlashes path) = before ++ [piece] ∧
      before.filter (· ≠ ['.']) = front := by
  have hfilter := filter_steps (dropEndSlashes path)
  rw [course_dropEndSlashes, hcourse] at hfilter
  have hne : steps (dropEndSlashes path) ≠ [] := by
    intro hnil
    rw [hnil] at hfilter
    cases front <;> cases hfilter
  obtain ⟨before, last, hsteps⟩ := (List.eq_nil_or_concat _).resolve_left hne
  rw [List.concat_eq_append] at hsteps
  have hlast : last ≠ ['.'] := by
    rintro rfl
    refine h ?_
    rw [Path.EndsIdly, hsteps, List.getLast?_concat]
  rw [hsteps, List.filter_append, List.filter_cons_of_pos (by simpa using hlast),
    List.filter_nil] at hfilter
  obtain ⟨hfront, hpiece⟩ := List.append_inj' hfilter rfl
  exact ⟨before, by rw [hsteps, hpiece], hfront⟩

section Parent

variable {parent piece : Text}

theorem startOf_of_isAbsolute_eq (here : Location)
    (habsolute : Path.isAbsolute parent = Path.isAbsolute path) :
    startOf here parent = startOf here path := by
  rw [startOf, startOf, habsolute]

theorem way_of_parent (fs : FileSystem) (hcourse : Path.course path = Path.course parent ++ [piece])
    (habsolute : Path.isAbsolute parent = Path.isAbsolute path) :
    fs.way path = fs.way parent ++ stations (fs.goal parent) [piece] := by
  rw [way, way, goal, hcourse, startOf_of_isAbsolute_eq _ habsolute, stations_append]

theorem goal_of_parent (fs : FileSystem)
    (hcourse : Path.course path = Path.course parent ++ [piece])
    (habsolute : Path.isAbsolute parent = Path.isAbsolute path) :
    fs.goal path = arrival (fs.goal parent) [piece] := by
  rw [goal, goal, hcourse, startOf_of_isAbsolute_eq _ habsolute, arrival_append]

theorem base_of_parent (hcourse : Path.course path = Path.course parent ++ [piece])
    (habsolute : Path.isAbsolute parent = Path.isAbsolute path) (hway : fs.way parent ≠ []) :
    fs.base parent = fs.base path := by
  rw [way, startOf_of_isAbsolute_eq _ habsolute] at hway
  rw [base, base, hcourse, startOf_of_isAbsolute_eq _ habsolute, footing_append, if_neg hway]

theorem way_of_parent_cases (fs : FileSystem)
    (hcourse : Path.course path = Path.course parent ++ [piece])
    (habsolute : Path.isAbsolute parent = Path.isAbsolute path) :
    fs.way path = fs.way parent ∨
      isName piece ∧ fs.way path = fs.way parent ++ [fs.goal path] := by
  rw [goal_of_parent fs hcourse habsolute, way_of_parent fs hcourse habsolute]
  rcases step_cases piece with rfl | rfl | hname
  · exact .inl (by simp)
  · exact .inl (by simp)
  · refine .inr ⟨hname, ?_⟩
    rw [stations_enter _ _ hname, stations_nil, arrival_enter _ _ hname, arrival_nil]

theorem makeDirectory_of_missing_above (h : Acceptable path)
    (hcourse : Path.course path = Path.course parent ++ [piece])
    (habsolute : Path.isAbsolute parent = Path.isAbsolute path)
    (hopen : ∀ place ∈ fs.way parent,
      fs.entryAt place = none ∨ fs.entryAt place = some .directory)
    (hmissing : ∃ place ∈ fs.way parent, fs.entryAt place = none) :
    makeDirectory path fs = (.error .notFound, fs) := by
  have hfilter := filter_steps (dropEndSlashes path)
  rw [course_dropEndSlashes, hcourse, List.filter_eq_append_iff] at hfilter
  obtain ⟨front, back, hsteps, hfront, hback⟩ := hfilter
  have hbackNe : back ≠ [] := by
    rintro rfl
    cases hback
  have hway : stations (startOf fs.workingDirectory path) front = fs.way parent := by
    rw [way, startOf_of_isAbsolute_eq _ habsolute, ← hfront, stations_filter]
  rw [← hway] at hopen hmissing
  exact makeDirectory_of_missing h hsteps hbackNe hopen hmissing

end Parent

/-- The directory is made at once, or is there already. -/
structure MadeAlone (path : Text) (fs : FileSystem) : Prop where
  found : (makeDirectory path fs).1 ≠ .error .notFound
  settles : ∃ fs', settled path (makeDirectory path fs) = (.ok (), fs')

theorem MadeAlone.exists_makeDirectoriesFrom_eq_ok (h : MadeAlone path fs) (hpath : path ≠ [])
    (above : List Text) : ∃ fs', makeDirectoriesFrom (path :: above) fs = (.ok (), fs') := by
  obtain ⟨hfound, hsettles⟩ := h
  rw [makeDirectoriesFrom_cons hpath]
  rcases hone : makeDirectory path fs with ⟨e | _, after⟩
  · rw [hone] at hfound hsettles
    cases e with
    | notFound => exact absurd rfl hfound
    | _ => exact hsettles
  · exact ⟨after, rfl⟩

theorem madeAlone_of_directories (hpath : Acceptable path)
    (hall : ∀ place ∈ fs.way path, fs.entryAt place = some .directory) : MadeAlone path fs := by
  have hmake := makeDirectory_of_directories hpath hall
  refine ⟨?_, fs, ?_⟩
  · rw [hmake]
    intro hmissing
    cases hmissing
  · rw [hmake, settled, isDirectory_of_directories hpath hall, if_pos rfl]

theorem madeAlone_of_made (h : makeDirectory path fs = (.ok (), fs')) : MadeAlone path fs := by
  refine ⟨?_, fs', ?_⟩
  · rw [h]
    intro hmissing
    cases hmissing
  · rw [h, settled]

theorem madeAlone_of_parent {parent piece : Text} (hpath : Acceptable path)
    (hcourse : Path.course path = Path.course parent ++ [piece])
    (habsolute : Path.isAbsolute parent = Path.isAbsolute path)
    (hend : ¬ Path.EndsIdly path ∨ fs.entryAt (fs.goal path) = some .directory)
    (hopen : ∀ place ∈ fs.way path,
      fs.entryAt place = none ∨ fs.entryAt place = some .directory)
    (hparent : ∀ place ∈ fs.way parent, fs.entryAt place = some .directory) :
    MadeAlone path fs := by
  rcases way_of_parent_cases fs hcourse habsolute with hway | ⟨hname, hway⟩
  · exact madeAlone_of_directories hpath (hway ▸ hparent)
  · rcases hopen (fs.goal path) (by simp [hway]) with hnone | hdirectory
    · obtain ⟨before, hsteps, hfilter⟩ :=
        exists_steps_of_not_endsIdly hcourse (hend.resolve_right (by simp [hnone]))
      rw [way, startOf_of_isAbsolute_eq _ habsolute, ← hfilter, stations_filter] at hparent
      exact madeAlone_of_made (makeDirectory_of_vacant hpath hsteps hname hparent hnone)
    · refine madeAlone_of_directories hpath ?_
      rw [hway, List.forall_mem_append]
      exact ⟨hparent, List.forall_mem_singleton.mpr hdirectory⟩

theorem Adds.open_of_open {paths : List Text} {places : List Location} (h : Adds paths fs fs')
    (hopen : ∀ place ∈ places, fs.entryAt place = none ∨ fs.entryAt place = some .directory) :
    ∀ place ∈ places, fs'.entryAt place = none ∨ fs'.entryAt place = some .directory := by
  intro place hmem
  rcases hopen place hmem with hnone | hdirectory
  · cases hentry : fs'.entryAt place with
    | none => exact .inl rfl
    | some entry =>
        rcases h.added hentry with hold | ⟨rfl, -⟩
        · cases hnone.symm.trans hold
        · exact .inr rfl
  · exact .inr (h.kept.entries hdirectory)

theorem Adds.madeAlone_of_parent {paths : List Text} {parent piece : Text}
    (h : Adds paths fs fs') (hpath : Acceptable path)
    (hcourse : Path.course path = Path.course parent ++ [piece])
    (habsolute : Path.isAbsolute parent = Path.isAbsolute path)
    (hend : ¬ Path.EndsIdly path ∨ fs.entryAt (fs.goal path) = some .directory)
    (hopen : ∀ place ∈ fs.way path,
      fs.entryAt place = none ∨ fs.entryAt place = some .directory)
    (hparent : ∀ place ∈ fs.way parent, fs'.entryAt place = some .directory) :
    MadeAlone path fs' := by
  refine Change.madeAlone_of_parent hpath hcourse habsolute ?_ ?_ ?_
  · rw [h.goal_eq]
    exact hend.imp_right h.kept.entries
  · rw [h.way_eq]
    exact h.open_of_open hopen
  · rwa [h.way_eq]

theorem course_ne_nil_of_way (hway : fs.way path ≠ []) : Path.course path ≠ [] := by
  intro hnil
  exact hway (by rw [way, hnil, stations_nil])

theorem ne_nil_of_course (hcourse : Path.course path ≠ []) : path ≠ [] := by
  rintro rfl
  exact hcourse rfl

/-- Directories can be made if nothing but directories is on the way. -/
theorem exists_makeDirectoriesFrom_eq_ok (hlineage : Path.Lineage (path :: above))
    (hpaths : ∀ other ∈ path :: above, other ≠ [] → Acceptable other) (hfree : fs.LinkFree [])
    (hend : ¬ Path.EndsIdly path ∨ fs.entryAt (fs.goal path) = some .directory)
    (hopen : ∀ place ∈ fs.way path,
      fs.entryAt place = none ∨ fs.entryAt place = some .directory)
    (hbase : fs.entryAt (fs.base path) = some .directory) :
    ∃ fs', makeDirectoriesFrom (path :: above) fs = (.ok (), fs') := by
  generalize hlist : path :: above = paths at hlineage
  induction hlineage generalizing path above with
  | @origin path above hcourse =>
      cases hlist
      by_cases hpath : path = []
      · exact ⟨fs, by rw [makeDirectoriesFrom, if_pos hpath]; rfl⟩
      · have hway : fs.way path = [] := by rw [way, hcourse, stations_nil]
        have halone : MadeAlone path fs :=
          madeAlone_of_directories (hpaths path List.mem_cons_self hpath) (by simp [hway])
        exact halone.exists_makeDirectoriesFrom_eq_ok hpath above
  | @descend path parent above hcourse hparent habsolute hends _ ih =>
      cases hlist
      have hpath := ne_nil_of_course hcourse
      have hacceptable := hpaths path List.mem_cons_self hpath
      obtain ⟨piece, hpieces⟩ : ∃ piece, Path.course path = Path.course parent ++ [piece] :=
        ⟨_, by rw [hparent, List.dropLast_concat_getLast hcourse]⟩
      have hparentOpen : ∀ place ∈ fs.way parent,
          fs.entryAt place = none ∨ fs.entryAt place = some .directory := fun place hmem =>
        hopen place (by rw [way_of_parent fs hpieces habsolute]; exact List.mem_append_left _ hmem)
      by_cases hfront : ∀ place ∈ fs.way parent, fs.entryAt place = some .directory
      · have halone := madeAlone_of_parent hacceptable hpieces habsolute hend hopen hfront
        exact halone.exists_makeDirectoriesFrom_eq_ok hpath _
      · obtain ⟨place, hmem, hnot⟩ : ∃ place ∈ fs.way parent,
            fs.entryAt place ≠ some .directory := by simpa using hfront
        have hmissing : ∃ place ∈ fs.way parent, fs.entryAt place = none :=
          ⟨place, hmem, (hparentOpen place hmem).resolve_right hnot⟩
        have hway : fs.way parent ≠ [] := List.ne_nil_of_mem hmem
        have hparentCourse := course_ne_nil_of_way hway
        have hparentBase : fs.entryAt (fs.base parent) = some .directory := by
          rwa [base_of_parent hpieces habsolute hway]
        -- the ancestors are made first, and the path is then made behind directories
        obtain ⟨between, hbetween⟩ := ih (fun other hother => hpaths other
          (List.mem_cons_of_mem _ hother)) (.inl (hends hparentCourse)) hparentOpen hparentBase rfl
        have hadds : Adds (parent :: above) fs between := by
          have hmakes := makes_makeDirectoriesFrom (parent :: above) fs
          rwa [hbetween] at hmakes
        have hall := (directories_of_makeDirectoriesFrom hfree (ne_nil_of_course hparentCourse)
          hparentBase hbetween).2
        have halone := hadds.madeAlone_of_parent hacceptable hpieces habsolute hend hopen hall
        rw [makeDirectoriesFrom_cons hpath,
          makeDirectory_of_missing_above hacceptable hpieces habsolute hparentOpen hmissing]
        dsimp only
        rw [hbetween]
        exact halone.settles

theorem eq_of_makeDirectory_eq_error {e : FileError} (h : makeDirectory path fs = (.error e, fs')) :
    fs' = fs := by
  rw [makeDirectory, bind_apply] at h
  cases hcheck : checkPath path with
  | error fault =>
      simp only [ofView, hcheck] at h
      exact (congrArg Prod.snd h).symm
  | ok _ =>
      simp only [ofView, hcheck, bind_apply] at h
      cases hfind : fs.find false (dropEndSlashes path) with
      | error fault =>
          rw [hfind] at h
          exact (congrArg Prod.snd h).symm
      | ok spot =>
          rw [hfind] at h
          cases spot with
          | present place entry =>
              cases h
              rfl
          | vacant place => cases h

theorem sameEntries_makeDirectory (hfree : fs.LinkFree [])
    (hbase : fs.way path ≠ [] → fs.entryAt (fs.base path) ≠ some .directory) :
    SameEntries fs (makeDirectory path fs).2 := by
  rcases hrun : makeDirectory path fs with ⟨e | _, after⟩
  · rw [eq_of_makeDirectory_eq_error hrun]
    exact .refl fs
  · obtain ⟨-, -, rfl, front, name, hsteps, hname, hfront⟩ := makeDirectory_eq_ok hfree hrun
    obtain ⟨hway, hgoal⟩ := way_of_last_name fs hsteps hname
    have hmissing := hbase (by simp [hway])
    have hfooting : fs.base path =
        footing (startOf fs.workingDirectory path) (front ++ [name]) := by
      rw [base, ← course_dropEndSlashes, ← footing_steps, hsteps]
    refine sameEntries_put (by simp [hgoal]) ?_
    rw [hgoal, List.dropLast_concat]
    rw [hfooting, footing_append, footing_enter _ _ hname] at hmissing
    split at hmissing
    · exact hmissing
    · rename_i hne
      obtain ⟨first, others, hstations⟩ := List.exists_cons_of_ne_nil hne
      obtain ⟨first', hfirst⟩ := exists_of_stations_eq_cons hstations
      have hdirectory := hfront first (hstations ▸ List.mem_cons_self)
      rw [hfirst] at hdirectory
      exact absurd (entryAt_above hdirectory) hmissing

theorem settled_snd (path : Text) (outcome : Except FileError Unit × FileSystem) :
    (settled path outcome).2 = outcome.2 := by
  rcases outcome with ⟨e | _, after⟩
  · rw [settled]
    split <;> rfl
  · rfl

theorem sameEntries_makeDirectoriesFrom {paths : List Text} (hfree : fs.LinkFree [])
    (hbase : ∀ path ∈ paths, fs.way path ≠ [] → fs.entryAt (fs.base path) ≠ some .directory) :
    SameEntries fs (makeDirectoriesFrom paths fs).2 := by
  induction paths generalizing fs with
  | nil => exact .refl fs
  | cons path above ih =>
      have hmake : ∀ {before : FileSystem}, SameEntries fs before →
          SameEntries fs (makeDirectory path before).2 := by
        intro before hbefore
        refine hbefore.trans (sameEntries_makeDirectory (hbefore.linkFree hfree) fun hway => ?_)
        rw [way, hbefore.workingDirectory] at hway
        rw [base, hbefore.workingDirectory, hbefore.entryAt_eq]
        exact hbase path List.mem_cons_self hway
      by_cases hpath : path = []
      · rw [makeDirectoriesFrom, if_pos hpath]
        exact .refl fs
      · have hfirst := hmake (.refl fs)
        rw [makeDirectoriesFrom_cons hpath]
        split
        · rename_i after hrun
          rw [hrun] at hfirst
          have habove : SameEntries fs (makeDirectoriesFrom above after).2 := by
            refine hfirst.trans (ih (hfirst.linkFree hfree) fun other hother hway => ?_)
            rw [way, hfirst.workingDirectory] at hway
            rw [base, hfirst.workingDirectory, hfirst.entryAt_eq]
            exact hbase other (List.mem_cons_of_mem _ hother) hway
          split
          · rename_i between hbetween
            rw [hbetween] at habove
            rw [settled_snd]
            exact hmake habove
          · rename_i e between hbetween
            rwa [hbetween] at habove
        · rw [settled_snd]
          exact hfirst

end Change

end TemplateSuite
