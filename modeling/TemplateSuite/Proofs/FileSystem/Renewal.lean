import TemplateSuite.Proofs.FileSystem.RemoveTree
import TemplateSuite.Proofs.Path.Below

/-!
Renewal. What is at a path is removed and an empty directory is made there. Below a root without
links this succeeds whatever was there before, unless a file is in the way, and it leaves the same.
-/

namespace TemplateSuite

theorem Location.Encloses.trans {place other below : Location} (h : place.Encloses other)
    (hother : other.Encloses below) : place.Encloses below := by
  refine ⟨h.1.trans hother.1, ?_⟩
  rintro rfl
  exact h.2 (h.1.eq_of_length (h.1.length_le.antisymm hother.1.length_le))

namespace FileSystem

variable {fs fs' : FileSystem} {root path other : Text} {place : Location} {names : List Text}
  {entry : Entry}

theorem way_of_descends (fs : FileSystem) (h : Path.Descends root path names) :
    fs.way path = fs.way root ++ stations (fs.goal root) names := by
  rw [way, startOf_of_descends h, h.course, stations_append]
  rfl

theorem goal_of_descends (fs : FileSystem) (h : Path.Descends root path names) :
    fs.goal path = fs.goal root ++ names := by
  rw [goal, startOf_of_descends h, h.course, arrival_append,
    arrival_of_names (isName_of_descends h)]
  rfl

theorem mem_way_of_descends (h : Path.Descends root path names) :
    place ∈ fs.way path ↔ place ∈ fs.way root ∨
      ∃ front, front ≠ [] ∧ front <+: names ∧ place = fs.goal root ++ front := by
  rw [way_of_descends fs h, List.mem_append, mem_stations_of_names (isName_of_descends h)]

theorem goal_mem_way_of_descends (h : Path.Descends root path names) (hnames : names ≠ []) :
    fs.goal path ∈ fs.way path := by
  rw [mem_way_of_descends h, goal_of_descends fs h]
  exact .inr ⟨names, hnames, List.prefix_rfl, rfl⟩

theorem ne_nil_of_descends (h : Path.Descends root path names) (hnames : names ≠ []) :
    path ≠ [] := by
  rintro rfl
  have hcourse : [] = Path.course root ++ names := h.course
  exact hnames (List.append_eq_nil_iff.mp hcourse.symm).2

theorem exists_last_of_descends (h : Path.Descends root path names) (hnames : names ≠ []) :
    ∃ front name, names = front ++ [name] ∧ isName name ∧
      Path.course path = Path.course root ++ front ++ [name] := by
  obtain ⟨front, name, rfl⟩ := (List.eq_nil_or_concat names).resolve_left hnames
  rw [List.concat_eq_append] at h ⊢
  refine ⟨front, name, rfl, isName_of_descends h name (by simp), ?_⟩
  rw [h.course, List.append_assoc]

theorem encloses_of_begins {front : List Text} (h : Path.Descends root path names)
    (hbegins : front <+: names) (hne : front ≠ names) :
    Location.Encloses (fs.goal root ++ front) (fs.goal path) := by
  rw [goal_of_descends fs h]
  exact ⟨(List.prefix_append_right_inj _).mpr hbegins, fun heq => hne (List.append_cancel_left heq)⟩

theorem of_mem_way_of_ancestor (h : Path.Descends root path names) (hnames : names ≠ [])
    (hother : other ∈ Path.ancestors path) (hmem : place ∈ fs.way other) :
    place ∈ fs.way root ∨ place.Encloses (fs.goal path) := by
  obtain ⟨habsolute, hbegins, hproper⟩ := Path.begins_of_mem_ancestors hother
  have hstart : startOf fs.workingDirectory other = startOf fs.workingDirectory root := by
    rw [startOf, startOf, habsolute, h.absolute]
  rw [h.course] at hbegins hproper
  rw [way, hstart] at hmem
  rcases List.prefix_or_prefix_of_prefix hbegins (List.prefix_append _ _) with
    ⟨back, hback⟩ | ⟨front, hfront⟩
  · rw [way, ← hback, stations_append]
    exact .inl (List.mem_append_left _ hmem)
  · rw [← hfront] at hmem hbegins hproper
    have hfrontNames : front <+: names := (List.prefix_append_right_inj _).mp hbegins
    have hne : front ≠ names := by
      rintro rfl
      exact hnames (List.append_eq_nil_iff.mp (hproper rfl)).2
    rw [stations_append, List.mem_append, mem_stations_of_names fun step hstep =>
      isName_of_descends h step (hfrontNames.subset hstep)] at hmem
    rcases hmem with hin | ⟨before, -, hbefore, rfl⟩
    · exact .inl hin
    · refine .inr (encloses_of_begins h (hbefore.trans hfrontNames) ?_)
      rintro rfl
      exact hne (hfrontNames.eq_of_length (hfrontNames.length_le.antisymm hbefore.length_le))

/-- There are no links, and the root is a directory that is reached through directories. -/
structure Grounded (fs : FileSystem) (root : Text) : Prop where
  linkFree : fs.LinkFree []
  way : ∀ place ∈ fs.way root, fs.entryAt place = some .directory
  top : fs.entryAt (fs.goal root) = some .directory

namespace Grounded

theorem directory_base (h : fs.Grounded root) (hpath : Path.Descends root path names) :
    fs.entryAt (fs.base path) = some .directory := by
  rw [base, startOf_of_descends hpath, hpath.course, footing_append]
  split
  · have hfooting : footing (fs.goal root) names = fs.goal root := by
      cases names with
      | nil => rfl
      | cons name rest =>
          exact footing_enter _ _ (isName_of_descends hpath name List.mem_cons_self)
    exact (congrArg fs.entryAt hfooting).trans h.top
  · rename_i hne
    obtain ⟨name, hfirst⟩ := exists_first_of_way hne
    exact entryAt_above (h.way _ hfirst)

theorem directory_of_mem_way (h : fs.Grounded root) (hpath : Path.Descends root path names)
    (hentry : fs.entryAt (fs.goal path) = some entry) (hmem : place ∈ fs.way path) :
    fs.entryAt place = some .directory ∨ place = fs.goal path := by
  rcases (mem_way_of_descends hpath).mp hmem with hroot | ⟨front, -, hbegins, rfl⟩
  · exact .inl (h.way place hroot)
  · by_cases hne : front = names
    · rw [hne, goal_of_descends fs hpath]
      exact .inr rfl
    · exact .inl (entryAt_of_encloses (encloses_of_begins hpath hbegins hne) hentry)

theorem directories (h : fs.Grounded root) (hpath : Path.Descends root path names)
    (hentry : fs.entryAt (fs.goal path) = some .directory) :
    ∀ place ∈ fs.way path, fs.entryAt place = some .directory := by
  intro place hmem
  rcases h.directory_of_mem_way hpath hentry hmem with hdirectory | rfl
  · exact hdirectory
  · exact hentry

theorem entryAt_of_status {followLast : Bool} (h : fs.Grounded root)
    (hpath : Path.Descends root path names) (hnames : names ≠ [])
    (hstatus : fs.status followLast path = .ok (place, entry)) :
    place = fs.goal path ∧ fs.entryAt (fs.goal path) = some entry := by
  obtain ⟨-, rfl, hall⟩ := of_status h.linkFree hstatus
  refine ⟨rfl, ?_⟩
  by_cases hdirectory : entry = .directory
  · rw [hdirectory]
    exact hall hdirectory _ (goal_mem_way_of_descends hpath hnames)
  · exact (status_eq_ok_iff.mp hstatus).2.entryAt_present hdirectory

end Grounded

/-- A file is at the place, and the path leads through it as through a directory. -/
def Blocks (fs : FileSystem) (path : Text) (place : Location) : Prop :=
  ∃ front step back above, steps path = front ++ step :: back ∧ back ≠ [] ∧ isName step ∧
    fs.Resolves (startOf fs.workingDirectory path) front above ∧ place = above ++ [step] ∧
      ∃ content executable, fs.entryAt place = some (.file content executable)

theorem exists_of_mem_stations {here : Location} {path : List Text}
    (h : place ∈ stations here path) : ∃ front step back, path = front ++ step :: back ∧
      isName step ∧ place = arrival here front ++ [step] := by
  induction path generalizing here with
  | nil => cases h
  | cons step rest ih =>
      rcases step_cases step with rfl | rfl | hname
      · rw [stations_stay] at h
        obtain ⟨front, name, back, rfl, hname, rfl⟩ := ih h
        exact ⟨['.'] :: front, name, back, rfl, hname, by rw [arrival_stay]⟩
      · rw [stations_climb] at h
        obtain ⟨front, name, back, rfl, hname, rfl⟩ := ih h
        exact ⟨['.', '.'] :: front, name, back, rfl, hname, by rw [arrival_climb]⟩
      · rw [stations_enter _ _ hname] at h
        rcases List.mem_cons.mp h with rfl | hrest
        · exact ⟨[], step, rest, rfl, hname, rfl⟩
        · obtain ⟨front, other, back, rfl, hother, rfl⟩ := ih hrest
          exact ⟨step :: front, other, back, rfl, hother, by rw [arrival_enter _ _ hname]⟩

theorem mem_stations_of_split {step : Text} (hname : isName step) (here : Location)
    (front back : List Text) :
    arrival here front ++ [step] ∈ stations here (front ++ step :: back) := by
  rw [stations_append, stations_enter _ _ hname]
  exact List.mem_append_right _ List.mem_cons_self

namespace Blocks

theorem mem_way (h : fs.Blocks path place) (hfree : fs.LinkFree []) : place ∈ fs.way path := by
  obtain ⟨front, step, back, above, hsteps, -, hname, habove, rfl, -⟩ := h
  obtain rfl := habove.unique (resolves_arrival hfree _ _)
  rw [way, ← stations_steps, hsteps]
  exact mem_stations_of_split hname _ _ _

theorem of_eq (h : fs.Blocks path place) (hfree : fs.LinkFree []) (hfree' : fs'.LinkFree [])
    (hdirectory : fs'.workingDirectory = fs.workingDirectory)
    (hentry : fs'.entryAt place = fs.entryAt place) : fs'.Blocks path place := by
  obtain ⟨front, step, back, above, hsteps, hback, hname, habove, rfl, hfile⟩ := h
  obtain rfl := habove.unique (resolves_arrival hfree _ _)
  refine ⟨front, step, back, _, hsteps, hback, hname, ?_, rfl, by rwa [hentry]⟩
  rw [hdirectory]
  exact resolves_arrival hfree' _ _

theorem status_ne_ok {followLast : Bool} {found : Location × Entry} (h : fs.Blocks path place)
    (hfree : fs.LinkFree []) : fs.status followLast path ≠ .ok found := by
  intro hstatus
  obtain ⟨front, step, back, above, hsteps, hback, hname, habove, rfl, content, executable,
    hfile⟩ := h
  obtain rfl := habove.unique (resolves_arrival hfree _ _)
  have hdirectory : ∀ {all : List Text}, (∀ place ∈ stations (startOf fs.workingDirectory path) all,
      fs.entryAt place = some .directory) → ¬ ∃ more, all = front ++ step :: more := by
    rintro all hall ⟨more, rfl⟩
    cases hfile.symm.trans (hall _ (mem_stations_of_split hname _ _ _))
  have hlast : ∀ {before : List Text} {name : Text}, steps path = before ++ [name] →
      ∃ more, before = front ++ step :: more := by
    intro before name hbefore
    obtain ⟨more, last, rfl⟩ := (List.eq_nil_or_concat back).resolve_left hback
    rw [hbefore, List.concat_eq_append, ← List.cons_append, ← List.append_assoc] at hsteps
    exact ⟨more, (List.append_inj' hsteps rfl).1⟩
  obtain ⟨place, entry⟩ := found
  cases (status_eq_ok_iff.mp hstatus).2.reaches hfree with
  | directory hall => exact hdirectory hall ⟨back, hsteps⟩
  | file hbefore _ hfront => exact hdirectory hfront (hlast hbefore)

end Blocks

theorem free_of_not_blocks (hfree : fs.LinkFree []) (h : ∀ place, ¬ fs.Blocks path place)
    (hmem : place ∈ fs.way path) (hne : place ≠ fs.goal path) :
    fs.entryAt place = none ∨ fs.entryAt place = some .directory := by
  rw [way, ← stations_steps] at hmem
  obtain ⟨front, step, back, hsteps, hname, hplace⟩ := exists_of_mem_stations hmem
  have hback : back ≠ [] := by
    rintro rfl
    rw [goal, ← arrival_steps, hsteps, arrival_concat hname, ← hplace] at hne
    exact hne rfl
  cases hentry : fs.entryAt place with
  | none => exact .inl rfl
  | some entry =>
      cases entry with
      | directory => exact .inr rfl
      | file content executable =>
          exact absurd ⟨front, step, back, _, hsteps, hback, hname, resolves_arrival hfree _ _,
            hplace, content, executable, hentry⟩ (h place)
      | link target => exact absurd hentry (hfree.ne_link place target)

theorem exists_steps_of_course {front : List Text} {name : Text}
    (hcourse : Path.course path = front ++ [name]) : ∃ before back, steps path =
      before ++ name :: back ∧ before.filter (· ≠ ['.']) = front ∧ ∀ step ∈ back, step = ['.'] := by
  have hfilter := filter_steps path
  rw [hcourse, List.filter_eq_append_iff] at hfilter
  obtain ⟨before, rest, hsteps, hbefore, hrest⟩ := hfilter
  obtain ⟨dots, back, rfl, hdots, -, hback⟩ := List.filter_eq_cons_iff.mp hrest
  refine ⟨before ++ dots, back, by rw [hsteps, List.append_assoc], ?_, fun step hmem => ?_⟩
  · have hnil : dots.filter (· ≠ ['.']) = [] := List.filter_eq_nil_iff.mpr hdots
    rw [List.filter_append, hbefore, hnil, List.append_nil]
  · simpa using List.filter_eq_nil_iff.mp hback step hmem

theorem Grounded.status_of_file {followLast : Bool} {content : Content} {executable : Bool}
    (h : fs.Grounded root) (hpath : Path.Descends root path names) (hnames : names ≠ [])
    (hacceptable : Acceptable path) (hblocks : ∀ place, ¬ fs.Blocks path place)
    (hfile : fs.entryAt (fs.goal path) = some (.file content executable)) :
    fs.status followLast path = .ok (fs.goal path, .file content executable) := by
  obtain ⟨before, name, rfl, hname, hcourse⟩ := exists_last_of_descends hpath hnames
  obtain ⟨front, back, hsteps, hfront, hback⟩ := exists_steps_of_course hcourse
  have hgoal : fs.goal path = arrival (startOf fs.workingDirectory path) front ++ [name] := by
    rw [goal, hcourse, arrival_concat hname, ← hfront, arrival_filter]
  have hnil : back = [] := by
    by_contra hne
    exact hblocks _ ⟨front, name, back, _, hsteps, hne, hname, resolves_arrival h.linkFree _ _,
      hgoal, content, executable, hfile⟩
  subst hnil
  refine status_eq_ok_iff.mpr ⟨hacceptable.checkPath_eq, walk_eq_ok_iff.mp ?_⟩
  have hfront' : ∀ place ∈ stations (startOf fs.workingDirectory path) front,
      fs.entryAt place = some .directory := by
    intro place hmem
    rw [← stations_filter, hfront, startOf_of_descends hpath, stations_append, List.mem_append,
      mem_stations_of_names fun step hstep =>
        isName_of_descends hpath step (List.mem_append_left _ hstep)] at hmem
    rcases hmem with hroot | ⟨more, -, hmore, rfl⟩
    · exact h.way place hroot
    · refine entryAt_of_encloses
        (encloses_of_begins hpath (hmore.trans (List.prefix_append _ _)) ?_) hfile
      rintro rfl
      exact absurd hmore.length_le (by simp)
  rw [goal, ← arrival_steps] at hfile ⊢
  exact (Reaches.file hsteps hname hfront' hfile).walk_eq (namesFit_steps hacceptable.namesFit)

/-- The way goes on below the goal before it comes back to it. -/
def Overshoots (fs : FileSystem) (path : Text) : Prop :=
  ∃ place ∈ fs.way path, (fs.goal path).Encloses place

theorem overshoots_congr (h : fs'.workingDirectory = fs.workingDirectory) (path : Text) :
    fs'.Overshoots path ↔ fs.Overshoots path := by
  rw [Overshoots, Overshoots, goal_congr h, way_congr h]

/-- The path leads to what is at its goal, if anything is there, and through directories to one. -/
structure Exposed (fs : FileSystem) (path : Text) : Prop where
  missing : fs.entryAt (fs.goal path) = none → ∃ e, fs.status false path = .error e
  status : ∀ entry, fs.entryAt (fs.goal path) = some entry →
    fs.status false path = .ok (fs.goal path, entry)
  way : fs.entryAt (fs.goal path) = some .directory →
    ∀ place ∈ fs.way path, fs.entryAt place = some .directory
  overshoots : fs.Overshoots path → fs.entryAt (fs.goal path) = some .directory

/-- A path that can be renewed as long as no file is in the way. -/
structure Renewable (fs : FileSystem) (path : Text) : Prop where
  acceptable : Acceptable path
  ends : ¬ Path.EndsIdly path ∨ fs.Overshoots path
  base : ¬ (fs.goal path).Encloses (fs.base path)

theorem Renewable.of_workingDirectory (h : fs.Renewable path)
    (hdirectory : fs'.workingDirectory = fs.workingDirectory) : fs'.Renewable path := by
  obtain ⟨hacceptable, hends, hbase⟩ := h
  constructor
  · exact hacceptable
  · rwa [Overshoots, way, goal, hdirectory]
  · rwa [FileSystem.base, goal, hdirectory]

namespace Grounded

theorem directory_of_overshoots (h : fs.Grounded root) (hpath : Path.Descends root path names)
    (hover : fs.Overshoots path) : fs.entryAt (fs.goal path) = some .directory := by
  obtain ⟨place, hmem, hencloses⟩ := hover
  rcases (mem_way_of_descends hpath).mp hmem with hroot | ⟨front, -, hbegins, rfl⟩
  · exact entryAt_of_encloses hencloses (h.way place hroot)
  · rw [goal_of_descends fs hpath] at hencloses
    have hback := (List.prefix_append_right_inj _).mp hencloses.1
    have heq := hback.eq_of_length (hback.length_le.antisymm hbegins.length_le)
    exact absurd (congrArg (fs.goal root ++ ·) heq) hencloses.2

theorem overshoots_of_base (hpath : Path.Descends root path names) (hnames : names ≠ [])
    (hbase : fs.goal path <+: fs.base path) : fs.Overshoots path := by
  have hgoal : fs.goal path ∈ fs.way path := goal_mem_way_of_descends hpath hnames
  obtain ⟨name, hfirst⟩ := exists_first_of_way (List.ne_nil_of_mem hgoal)
  refine ⟨_, hfirst, hbase.trans (List.prefix_append _ _), fun heq => ?_⟩
  have hlength := hbase.length_le
  rw [heq, List.length_append, List.length_singleton] at hlength
  omega

end Grounded

end FileSystem

namespace Change

open FileSystem StateAction

variable {fs fs' : FileSystem} {root path : Text} {place : Location} {names : List Text}

/-- Remove what is at the path, if anything is. -/
def clear (path : Text) : Change Unit := fun fs =>
  match fs.status false path with
  | .ok (_, .directory) => removeTree path fs
  | .ok _ => removeFile path fs
  | .error _ => (.ok (), fs)

/-- Remove what is at the path and make an empty directory there. -/
def renew (path : Text) : Change Unit := do
  clear path
  makeDirectories path

/-- Nothing is left below the goal of the path, and nothing at the goal unless the way goes on below
it. -/
structure Clears (path : Text) (fs fs' : FileSystem) : Prop where
  removes : Removes (fs.goal path) fs fs'
  below : ∀ {place}, (fs.goal path).Encloses place → fs'.entryAt place = none
  goal : fs'.entryAt (fs.goal path) = none ∨ fs'.entryAt (fs.goal path) = some .directory
  stays : fs.Overshoots path → fs'.entryAt (fs.goal path) = some .directory

/-- Where the way does not go on below it, the goal itself is gone too. -/
structure ClearsAll (path : Text) (fs fs' : FileSystem) : Prop extends Clears path fs fs' where
  goes : ¬ fs.Overshoots path → fs'.entryAt (fs.goal path) = none

theorem Removes.linkFree (h : Removes place fs fs') (hfree : fs.LinkFree []) : fs'.LinkFree [] :=
  fun other target hother hlink => hfree other target hother (h.shrinks.entries hlink)

theorem clearsAll_of_none (hnone : fs.entryAt (fs.goal path) = none)
    (hover : ¬ fs.Overshoots path) : ClearsAll path fs fs where
  removes := ⟨fun _ => rfl, rfl, .refl fs⟩
  below := by
    intro place hencloses
    cases hentry : fs.entryAt place with
    | none => rfl
    | some entry => cases hnone.symm.trans (entryAt_of_encloses hencloses hentry)
  goal := .inl hnone
  stays := fun h => absurd h hover
  goes := fun _ => hnone

theorem clearsAll_of_erase (hgoal : fs.goal path ≠ []) (hremoves : Removes (fs.goal path) fs fs')
    (hover : ¬ fs.Overshoots path) : ClearsAll path fs (fs'.erase (fs.goal path)) where
  removes := hremoves.trans (removes_erase _ _)
  below := fun hencloses => entryAt_erase_of_prefix _ hgoal hencloses.1
  goal := .inl <| entryAt_erase_of_prefix _ hgoal List.prefix_rfl
  stays := fun h => absurd h hover
  goes := fun _ => entryAt_erase_of_prefix _ hgoal List.prefix_rfl

theorem clearsAll_of_clearBelow (hdirectory : fs.entryAt (fs.goal path) = some .directory)
    (hover : fs.Overshoots path) : ClearsAll path fs (fs.clearBelow (fs.goal path)) := by
  have hkept : (fs.clearBelow (fs.goal path)).entryAt (fs.goal path) = some .directory := by
    rw [entryAt_clearBelow, if_neg fun hself => hself.2 rfl, hdirectory]
  refine ⟨⟨removes_clearBelow fs _, fun hencloses => ?_, .inr hkept, fun _ => hkept⟩,
    fun hnot => absurd hover hnot⟩
  rw [entryAt_clearBelow, if_pos hencloses]

theorem exists_clear_of_exposed (h : fs.Exposed path) (hpath : Acceptable path)
    {front : List Text} {name : Text} (hcourse : Path.course path = front ++ [name])
    (hname : isName name) (hends : ¬ Path.EndsIdly path ∨ fs.Overshoots path) :
    ∃ fs', clear path fs = (.ok (), fs') ∧ ClearsAll path fs fs' := by
  have hgoal : fs.goal path ≠ [] := by simp [goal, hcourse, arrival_concat hname]
  unfold clear
  cases hentry : fs.entryAt (fs.goal path) with
  | none =>
      obtain ⟨e, hstatus⟩ := h.missing hentry
      have hover : ¬ fs.Overshoots path := fun hover => by
        cases hentry.symm.trans (h.overshoots hover)
      rw [hstatus]
      exact ⟨fs, rfl, clearsAll_of_none hentry hover⟩
  | some entry =>
      rw [h.status entry hentry]
      by_cases hdirectory : entry = .directory
      · subst hdirectory
        by_cases hover : fs.Overshoots path
        · exact ⟨_, removeTree_of_encloses hpath (h.way hentry) hover,
            clearsAll_of_clearBelow hentry hover⟩
        · have hremove := removeTree_of_not_encloses hpath (h.way hentry) hover hcourse hname
          rw [if_neg (hends.resolve_right hover)] at hremove
          exact ⟨_, hremove, clearsAll_of_erase hgoal (removes_clearBelow fs _) hover⟩
      · have hover : ¬ fs.Overshoots path := fun hover => by
          cases hentry.symm.trans (h.overshoots hover)
          exact hdirectory rfl
        have hlook : ofView (·.status false path) fs = (.ok (fs.goal path, entry), fs) := by
          rw [ofView, h.status entry hentry]
        refine ⟨fs.erase (fs.goal path), ?_,
          clearsAll_of_erase hgoal ⟨fun _ => rfl, rfl, .refl fs⟩ hover⟩
        cases entry with
        | directory => exact absurd rfl hdirectory
        | file | link => exact bind_of_ok hlook _

theorem exists_clear_eq_ok (h : fs.Grounded root) (hpath : Path.Descends root path names)
    (hnames : names ≠ []) (hrenewable : fs.Renewable path)
    (hblocks : ∀ place, ¬ fs.Blocks path place) :
    ∃ fs', clear path fs = (.ok (), fs') ∧ Clears path fs fs' := by
  obtain ⟨front, name, -, hname, hcourse⟩ := exists_last_of_descends hpath hnames
  have hexposed : fs.Exposed path := by
    refine ⟨fun hnone => ?_, fun entry hentry => ?_, h.directories hpath,
      h.directory_of_overshoots hpath⟩
    · cases hstatus : fs.status false path with
      | error e => exact ⟨e, rfl⟩
      | ok found => cases hnone.symm.trans (h.entryAt_of_status hpath hnames hstatus).2
    · cases entry with
      | directory =>
          exact status_of_directories hrenewable.acceptable (h.directories hpath hentry)
      | file => exact h.status_of_file hpath hnames hrenewable.acceptable hblocks hentry
      | link target => exact absurd hentry (h.linkFree.ne_link _ target)
  obtain ⟨fs', hclear, hcleared⟩ :=
    exists_clear_of_exposed hexposed hrenewable.acceptable hcourse hname hrenewable.ends
  exact ⟨fs', hclear, hcleared.toClears⟩

/-- The entries that renewing a path makes or takes away. -/
def renewed (fs : FileSystem) (path : Text) (place : Location) : Option (Option Entry) :=
  if place ∈ fs.way path then some (some .directory)
  else if fs.goal path <+: place then some none
  else none

theorem renewed_ne_link (place : Location) (target : Text) :
    renewed fs path place ≠ some (some (.link target)) := by
  unfold renewed
  split
  · simp
  · split <;> simp

theorem not_prefix_of_renewed_eq_none (h : renewed fs path place = none) :
    ¬ fs.goal path <+: place := by
  unfold renewed at h
  split at h
  · cases h
  · split at h
    · cases h
    · assumption

theorem renewed_of_not_prefix (h : ¬ fs.goal path <+: place) :
    renewed fs path place = none ∨ renewed fs path place = some (some .directory) := by
  by_cases hmem : place ∈ fs.way path
  · exact .inr (if_pos hmem)
  · exact .inl ((if_neg hmem).trans (if_neg h))

theorem renewed_of_root (hpath : Path.Descends root path names) (hnames : names ≠ [])
    (hplace : place ∈ fs.way root ∨ place = fs.goal root) :
    renewed fs path place = none ∨ renewed fs path place = some (some .directory) := by
  rcases hplace with hroot | rfl
  · exact .inr (if_pos ((mem_way_of_descends hpath).mpr (.inl hroot)))
  · refine renewed_of_not_prefix fun hbegins => ?_
    have hlength := hbegins.length_le
    rw [goal_of_descends fs hpath, List.length_append] at hlength
    exact hnames (List.eq_nil_of_length_eq_zero (by omega))

namespace Clears

theorem directory_base (h : Clears path fs fs') (hground : fs.Grounded root)
    (hpath : Path.Descends root path names) (hnames : names ≠ [])
    (hbase : ¬ (fs.goal path).Encloses (fs.base path)) :
    fs'.entryAt (fs'.base path) = some .directory := by
  rw [base_congr h.removes.workingDirectory]
  by_cases hbegins : fs.goal path <+: fs.base path
  · have heq : fs.goal path = fs.base path := by
      by_contra hne
      exact hbase ⟨hbegins, hne⟩
    rw [← heq]
    exact h.stays (Grounded.overshoots_of_base hpath hnames hbegins)
  · exact (h.removes.kept hbegins).trans (hground.directory_base hpath)

theorem open_way (h : Clears path fs fs') (hfree : fs.LinkFree [])
    (hblocks : ∀ place, ¬ fs.Blocks path place) :
    ∀ place ∈ fs'.way path, fs'.entryAt place = none ∨ fs'.entryAt place = some .directory := by
  intro place hmem
  rw [way_congr h.removes.workingDirectory] at hmem
  by_cases hbegins : fs.goal path <+: place
  · by_cases heq : fs.goal path = place
    · exact heq ▸ h.goal
    · exact .inl (h.below ⟨hbegins, heq⟩)
  · rw [h.removes.kept hbegins]
    refine free_of_not_blocks hfree hblocks hmem ?_
    rintro rfl
    exact hbegins List.prefix_rfl

theorem overlays_renewed {between : FileSystem} (h : Clears path fs between)
    (hgoal : fs.goal path ∈ fs.way path)
    (hmade : Overlays (fun place => if place ∈ between.way path then some (some .directory) else none)
      between fs') : Overlays (renewed fs path) fs fs' where
  entryAt_eq := by
    intro place
    rw [hmade.entryAt_eq, way_congr h.removes.workingDirectory, renewed]
    by_cases hmem : place ∈ fs.way path
    · rw [if_pos hmem, if_pos hmem]
      rfl
    · rw [if_neg hmem, if_neg hmem, Option.getD_none]
      by_cases hbegins : fs.goal path <+: place
      · rw [if_pos hbegins]
        refine h.below ⟨hbegins, ?_⟩
        rintro rfl
        exact hmem hgoal
      · rw [if_neg hbegins]
        exact h.removes.kept hbegins
  workingDirectory := hmade.workingDirectory.trans h.removes.workingDirectory

end Clears

/-- A path that is not blocked is renewed, whatever is there. -/
theorem exists_renew_eq_ok (h : fs.Grounded root) (hpath : Path.Descends root path names)
    (hnames : names ≠ []) (hrenewable : fs.Renewable path)
    (hblocks : ∀ place, ¬ fs.Blocks path place) :
    ∃ fs', renew path fs = (.ok (), fs') ∧ Overlays (renewed fs path) fs fs' := by
  obtain ⟨between, hclear, hcleared⟩ := exists_clear_eq_ok h hpath hnames hrenewable hblocks
  have hfree := hcleared.removes.linkFree h.linkFree
  have hbase := hcleared.directory_base h hpath hnames hrenewable.base
  have hends : ¬ Path.EndsIdly path ∨ between.entryAt (between.goal path) = some .directory := by
    rw [goal_congr hcleared.removes.workingDirectory]
    exact hrenewable.ends.imp_right hcleared.stays
  obtain ⟨fs', hmake⟩ := exists_makeDirectoriesFrom_eq_ok (Path.lineage_ancestors path)
    (fun _ => hrenewable.acceptable.of_mem_ancestors) hfree hends
    (hcleared.open_way h.linkFree hblocks) hbase
  have hmade := overlays_makeDirectories hfree (ne_nil_of_descends hpath hnames) hbase hmake
  exact ⟨fs', (bind_of_ok hclear _).trans hmake,
    hcleared.overlays_renewed (goal_mem_way_of_descends hpath hnames) hmade⟩

theorem clear_cases (h : clear path fs = (.ok (), fs')) :
    fs' = fs ∨ ∃ place entry, fs.status false path = .ok (place, entry) ∧ Removes place fs fs' := by
  unfold clear at h
  split at h
  · exact .inr (removal_removeTree h).of_ok
  · exact .inr (removal_removeFile h).of_ok
  · exact .inl (Prod.mk.inj h).2.symm

theorem clear_of_status_ne_ok (h : clear path fs = (.ok (), fs'))
    (hstatus : ∀ found, fs.status false path ≠ .ok found) : fs' = fs := by
  rcases clear_cases h with hsame | ⟨place, entry, hfound, -⟩
  · exact hsame
  · exact absurd hfound (hstatus _)

theorem not_endsIdly_of_makeDirectories (h : fs.Grounded root)
    (hpath : Path.Descends root path names) (hnames : names ≠ [])
    (hnone : fs.entryAt (fs.goal path) = none) (hmake : makeDirectories path fs = (.ok (), fs')) :
    ¬ Path.EndsIdly path := by
  intro hidle
  have hends : ¬ EndsInName path := by
    rintro ⟨name, hlast, hname⟩
    obtain rfl := Option.some.inj (hlast.symm.trans hidle)
    cases hname
  obtain ⟨between, hadds, hmade | ⟨rfl, hdirectory⟩⟩ :=
    makeDirectoriesFrom_eq_ok (ne_nil_of_descends hpath hnames) hmake
  · obtain ⟨-, -, -, front, name, hsteps, hname, -⟩ :=
      makeDirectory_eq_ok (hadds.linkFree h.linkFree) hmade
    exact hends ⟨name, by rw [hsteps, List.getLast?_concat], hname⟩
  · have hall := (of_isDirectory (hadds.linkFree h.linkFree) hdirectory).2
    rw [hadds.way_eq] at hall
    rcases hadds.added (hall _ (goal_mem_way_of_descends hpath hnames)) with hold |
      ⟨-, other, hother, hname, hdenotes⟩
    · cases hnone.symm.trans hold
    · have hmem : fs.goal path ∈ fs.way other := by
        rw [(denotes_iff_goal h.linkFree).mp hdenotes]
        exact goal_mem_way_of_endsInName fs hname
      rcases List.mem_cons.mp hother with rfl | habove
      · exact hends hname
      · rcases of_mem_way_of_ancestor hpath hnames habove hmem with hroot | hself
        · cases hnone.symm.trans (h.way _ hroot)
        · exact hself.2 rfl

theorem getLast?_steps_of_endsIdly (h : Path.EndsIdly path) :
    (steps path).getLast? = some ['.'] := by
  obtain ⟨more, hsteps, rfl | rfl⟩ := Path.steps_dropEndSlashes path
  · rw [hsteps, List.append_nil]
    exact h
  · rw [hsteps, List.getLast?_concat]

theorem not_blocks_of_renew (h : fs.Grounded root) (hpath : Path.Descends root path names)
    (hnames : names ≠ []) (hrun : renew path fs = (.ok (), fs')) (place : Location) :
    ¬ fs.Blocks path place := by
  intro hblocks
  obtain ⟨_, between, hclear, hmake⟩ := bind_eq_ok hrun
  obtain rfl := clear_of_status_ne_ok hclear fun found => hblocks.status_ne_ok h.linkFree
  have hmade := makes_makeDirectories path between
  have hall := (directories_of_makeDirectoriesFrom h.linkFree (ne_nil_of_descends hpath hnames)
    (h.directory_base hpath) hmake).2
  have hmem := hblocks.mem_way h.linkFree
  obtain ⟨-, -, -, -, -, -, -, -, -, content, executable, hfile⟩ := hblocks
  have hkept := hmade.kept.entries hfile
  rw [hmake] at hkept
  cases hkept.symm.trans (hall place hmem)

theorem ends_of_renew (h : fs.Grounded root) (hpath : Path.Descends root path names)
    (hnames : names ≠ []) (hacceptable : Acceptable path)
    (hrun : renew path fs = (.ok (), fs')) : ¬ Path.EndsIdly path ∨ fs.Overshoots path := by
  by_contra hnot
  obtain ⟨hidle, hover⟩ := not_or.mp hnot
  rw [not_not] at hidle
  obtain ⟨_, between, hclear, hmake⟩ := bind_eq_ok hrun
  obtain ⟨front, name, -, hname, hcourse⟩ := exists_last_of_descends hpath hnames
  cases hentry : fs.entryAt (fs.goal path) with
  | none =>
      obtain rfl := clear_of_status_ne_ok hclear fun found hstatus => by
        cases hentry.symm.trans (h.entryAt_of_status hpath hnames hstatus).2
      exact not_endsIdly_of_makeDirectories h hpath hnames hentry hmake hidle
  | some entry =>
      cases entry with
      | directory =>
          have hall := h.directories hpath hentry
          rw [clear, status_of_directories hacceptable hall] at hclear
          dsimp only at hclear
          rw [removeTree_of_not_encloses hacceptable hall hover hcourse hname,
            if_pos hidle] at hclear
          cases hclear
      | file content executable =>
          obtain ⟨before, back, hsteps, hbefore, hback⟩ := exists_steps_of_course hcourse
          refine not_blocks_of_renew h hpath hnames hrun _ ⟨before, name, back, _, hsteps, ?_,
            hname, resolves_arrival h.linkFree _ _, ?_, content, executable, hentry⟩
          · rintro rfl
            have hlast := getLast?_steps_of_endsIdly hidle
            rw [hsteps, List.getLast?_concat] at hlast
            exact (isName_iff.mp hname).1 (Option.some.inj hlast)
          · rw [goal, hcourse, arrival_concat hname, ← hbefore, arrival_filter]
      | link target => exact h.linkFree.ne_link _ target hentry

theorem base_of_mem_ancestors (fs : FileSystem) {other : Text}
    (hother : other ∈ path :: Path.ancestors path) (hway : fs.way other ≠ []) :
    fs.base path = fs.base other := by
  rcases List.mem_cons.mp hother with rfl | hmem
  · rfl
  · obtain ⟨habsolute, ⟨back, hback⟩, -⟩ := Path.begins_of_mem_ancestors hmem
    rw [way, startOf, habsolute, ← startOf] at hway
    rw [base, base, ← hback, footing_append, if_neg hway, startOf, startOf, habsolute]

/-- If the directory in which the first name is looked up goes, then nothing can be made. -/
theorem base_of_renew (h : fs.Grounded root) (hpath : Path.Descends root path names)
    (hnames : names ≠ []) (hacceptable : Acceptable path)
    (hrun : renew path fs = (.ok (), fs')) : ¬ (fs.goal path).Encloses (fs.base path) := by
  intro hencloses
  obtain ⟨_, between, hclear, hmake⟩ := bind_eq_ok hrun
  have hentry := entryAt_of_encloses hencloses (h.directory_base hpath)
  have hall := h.directories hpath hentry
  rw [clear, status_of_directories hacceptable hall] at hclear
  dsimp only at hclear
  rw [removeTree_of_encloses hacceptable hall
    (Grounded.overshoots_of_base hpath hnames hencloses.1)] at hclear
  obtain rfl := (Prod.mk.inj hclear).2
  have hfree := (removes_clearBelow fs (fs.goal path)).linkFree h.linkFree
  have hbase : (fs.clearBelow (fs.goal path)).entryAt (fs.base path) = none := by
    rw [entryAt_clearBelow, if_pos hencloses]
  -- where the directory to begin from is gone, nothing can be made
  have hsame : SameEntries (fs.clearBelow (fs.goal path)) fs' := by
    have hmade : SameEntries (fs.clearBelow (fs.goal path))
        (makeDirectories path (fs.clearBelow (fs.goal path))).2 := by
      refine sameEntries_makeDirectoriesFrom hfree fun other hother hway => ?_
      rw [← base_of_mem_ancestors _ hother hway]
      exact ne_of_eq_of_ne hbase nofun
    rwa [hmake] at hmade
  obtain ⟨between, hadds, hmade | ⟨rfl, hdirectory⟩⟩ :=
    makeDirectoriesFrom_eq_ok (ne_nil_of_descends hpath hnames) hmake
  · have hnone := (makeDirectory_eq_ok (hadds.linkFree hfree) hmade).2.1
    have hgoal : (fs.clearBelow (fs.goal path)).entryAt (fs.goal path) = some .directory := by
      rw [entryAt_clearBelow, if_neg fun hself => hself.2 rfl, hentry]
    rw [hadds.goal_eq] at hnone
    cases hnone.symm.trans (hadds.kept.entries hgoal)
  · have hgoal : fs.goal path ∈ fs.way path := goal_mem_way_of_descends hpath hnames
    obtain ⟨name, hmem⟩ := exists_first_of_way (List.ne_nil_of_mem hgoal)
    have hfirst : between.entryAt (fs.base path ++ [name]) = some .directory := by
      refine (of_isDirectory (hsame.linkFree hfree) hdirectory).2 _ ?_
      rw [hadds.way_eq]
      exact hmem
    cases hbase.symm.trans ((hsame.entryAt_eq _).symm.trans (entryAt_above hfirst))

/-- If a path below the root is renewed, then it can be renewed again in any state without a file in
the way. -/
theorem renewable_of_renew (h : fs.Grounded root) (hpath : Path.Descends root path names)
    (hnames : names ≠ []) (hrun : renew path fs = (.ok (), fs')) : fs.Renewable path := by
  have hacceptable : Acceptable path := by
    obtain ⟨_, between, hclear, hmake⟩ := bind_eq_ok hrun
    refine acceptable_of_makeDirectoriesFrom ?_ (ne_nil_of_descends hpath hnames) hmake
    rcases clear_cases hclear with rfl | ⟨place, entry, -, hremoves⟩
    · exact h.linkFree
    · exact hremoves.linkFree h.linkFree
  exact ⟨hacceptable, ends_of_renew h hpath hnames hacceptable hrun,
    base_of_renew h hpath hnames hacceptable hrun⟩

end Change

end TemplateSuite
