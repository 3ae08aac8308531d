import TemplateSuite.Proofs.FileSystem.Enclave
import TemplateSuite.Proofs.FileSystem.SameEntries

namespace TemplateSuite

namespace FileSystem

/-- The path ends with the name, and the steps before it lead to the directory, which is there,
without meeting a link. -/
structure HasParent (fs : FileSystem) (path : Text) (above : Location) (name : Text) : Prop where
  name_eq : (steps path).getLast? = some name
  walk_eq : fs.walk { followLast := true } 0 (startOf fs.workingDirectory path)
    (steps path).dropLast = .ok (.present above .directory)
  directory : fs.entryAt above = some .directory

/-- The steps before the name lead through directories to one that is there. -/
structure Approached (fs : FileSystem) (path : Text) (front : List Text) (name : Text) : Prop where
  steps_eq : steps path = front ++ [name]
  isName : isName name
  namesFit : NamesFit front
  directories : ∀ place ∈ stations (startOf fs.workingDirectory path) front,
    fs.entryAt place = some .directory
  above : fs.entryAt (arrival (startOf fs.workingDirectory path) front) = some .directory

/-- The error for a path that the system does not take. -/
def refusal (path : Text) : FileError :=
  match checkPath path with
  | .error e => e
  | .ok () => .nameTooLong

variable {fs fs' : FileSystem} {here above place : Location} {path : Text}
  {front : List Text} {name : Text} {followLast : Bool}

theorem Walks.through_directories {mode : WalkMode} {steps : List Text} {spot : Spot}
    (h : Walks fs mode 0 here steps spot) (hspot : spot = .present place .directory) :
    NamesFit steps ∧ (∀ passed ∈ stations here steps, fs.entryAt passed = some .directory) ∧
      place = arrival here steps := by
  generalize hlinks : 0 = links at h
  induction h with
  | arrive =>
      cases hspot
      exact ⟨nofun, nofun, rfl⟩
  | stay _ ih =>
      obtain ⟨hfits, hall, hplace⟩ := ih hspot hlinks
      exact ⟨hfits.cons nofun, by simpa using hall, by simpa using hplace⟩
  | climb _ ih =>
      obtain ⟨hfits, hall, hplace⟩ := ih hspot hlinks
      exact ⟨hfits.cons nofun, by simpa using hall, by simpa using hplace⟩
  | enter hfitting hentry _ ih =>
      obtain ⟨hfits, hall, hplace⟩ := ih hspot hlinks
      have hname := isName_of_fits hfitting
      refine ⟨hfits.cons fun _ => hfitting.name_le, ?_, ?_⟩
      · rw [stations_enter _ _ hname]
        exact List.forall_mem_cons.mpr ⟨hentry, hall⟩
      · rwa [arrival_enter _ _ hname]
  | free | file | stop => cases hspot
  | follow => cases hlinks

namespace Approached

theorem dropEndSlashes_eq (h : fs.Approached path front name) :
    Change.dropEndSlashes path = path := by
  refine Path.dropEndSlashes_of_not_endsInSlash ?_
  by_contra hslash
  have hsteps := h.steps_eq
  rw [Path.steps_eq, if_pos (by simpa using hslash)] at hsteps
  obtain rfl : ['.'] = name := List.singleton_inj.mp (List.append_inj' hsteps rfl).2
  cases h.isName

theorem steps_dropEndSlashes (h : fs.Approached path front name) :
    steps (Change.dropEndSlashes path) = front ++ [name] := by
  rw [h.dropEndSlashes_eq, h.steps_eq]

theorem way_eq (h : fs.Approached path front name) :
    fs.way path = stations (startOf fs.workingDirectory path) front ++ [fs.goal path] :=
  (way_of_last_name fs h.steps_dropEndSlashes h.isName).1

theorem goal_eq (h : fs.Approached path front name) :
    fs.goal path = arrival (startOf fs.workingDirectory path) front ++ [name] :=
  (way_of_last_name fs h.steps_dropEndSlashes h.isName).2

theorem mem_way (h : fs.Approached path front name) (hmem : place ∈ fs.way path) :
    fs.entryAt place = some .directory ∨ place = fs.goal path := by
  rw [h.way_eq, List.mem_append, List.mem_singleton] at hmem
  exact hmem.imp_left (h.directories place)

theorem directory_of_overshoots (h : fs.Approached path front name) (hover : fs.Overshoots path) :
    fs.entryAt (fs.goal path) = some .directory := by
  obtain ⟨place, hmem, hencloses⟩ := hover
  rcases h.mem_way hmem with hdirectory | rfl
  · exact entryAt_of_encloses hencloses hdirectory
  · exact absurd rfl hencloses.2

theorem namesFit_steps (h : fs.Approached path front name)
    (hlength : Text.byteCount name ≤ maxNameBytes) : NamesFit (steps path) := by
  rw [h.steps_eq]
  intro step hmem hname
  rcases List.mem_append.mp hmem with hin | hlast
  · exact h.namesFit step hin hname
  · rwa [List.mem_singleton.mp hlast]

theorem course_eq (h : fs.Approached path front name) :
    Path.course path = front.filter (· ≠ ['.']) ++ [name] := by
  have hname := (isName_iff.mp h.isName).1
  rw [← filter_steps, h.steps_eq, List.filter_append]
  simp [hname]

theorem not_endsIdly (h : fs.Approached path front name) : ¬ Path.EndsIdly path := by
  rw [Path.EndsIdly, h.steps_dropEndSlashes, List.getLast?_concat]
  exact fun hlast => (isName_iff.mp h.isName).1 (Option.some.inj hlast)

theorem of_hasParent (h : fs.HasParent path above name) (hname : FileSystem.isName name) :
    ∃ front, fs.Approached path front name ∧ fs.goal path = above ++ [name] := by
  obtain ⟨front, hsteps⟩ := List.getLast?_eq_some_iff.mp h.name_eq
  have hwalk := h.walk_eq
  rw [hsteps, List.dropLast_concat] at hwalk
  obtain ⟨hfits, hall, rfl⟩ := (walk_eq_ok_iff.mp hwalk).through_directories rfl
  have happroached : fs.Approached path front name := ⟨hsteps, hname, hfits, hall, h.directory⟩
  exact ⟨front, happroached, happroached.goal_eq⟩

theorem walkFrom_eq (h : fs.Approached path front name) (followLast : Bool) :
    ∃ left, fs.walkFrom { followLast } path (steps path) =
      fs.walk { followLast } left (arrival (startOf fs.workingDirectory path) front) [name] := by
  rw [walkFrom, h.steps_eq]
  exact (walks_of_directories h.namesFit h.directories).walk_append followLast
    (List.cons_ne_nil name [])

theorem status_eq (h : fs.Approached path front name) (hpath : Acceptable path) :
    fs.status false path =
      match fs.entryAt (fs.goal path) with
      | none => .error .notFound
      | some entry => .ok (fs.goal path, entry) := by
  have hfits : Fits { followLast := false } (arrival (startOf fs.workingDirectory path) front)
      name := by
    refine fits_of_isName h.isName (FileSystem.namesFit_steps hpath.namesFit name ?_ h.isName)
    rw [h.steps_eq]
    exact List.mem_append_right _ (List.mem_singleton_self name)
  obtain ⟨left, hwalk⟩ := h.walkFrom_eq false
  rw [walk_cons_of_fits hfits, ← h.goal_eq] at hwalk
  rw [status, find, hpath.checkPath_eq]
  simp only [bind, Except.bind, hwalk]
  rcases fs.entryAt (fs.goal path) with _ | entry
  · rfl
  · cases entry with
    | directory => simp [walk, pure, Except.pure]
    | file | link => rfl

theorem exposed (h : fs.Approached path front name) (hpath : Acceptable path) :
    fs.Exposed path := by
  have hstatus := h.status_eq hpath
  refine ⟨fun hnone => ?_, fun entry hentry => ?_, fun hentry place hmem => ?_,
    h.directory_of_overshoots⟩
  · rw [hnone] at hstatus
    exact ⟨_, hstatus⟩
  · rw [hentry] at hstatus
    exact hstatus
  · rcases h.mem_way hmem with hdirectory | rfl
    · exact hdirectory
    · exact hentry

theorem find_eq_refusal (h : fs.Approached path front name) (hpath : ¬ Acceptable path)
    (followLast : Bool) : fs.find followLast path = .error (refusal path) := by
  rw [find, refusal]
  cases hcheck : checkPath path with
  | error e => rfl
  | ok _ =>
      have hlong : maxNameBytes < Text.byteCount name := by
        by_contra hlength
        refine hpath ⟨hcheck, ?_⟩
        rw [← filter_steps]
        exact (h.namesFit_steps (Nat.le_of_not_lt hlength)).of_subset List.filter_sublist.subset
      obtain ⟨hcurrent, hparent⟩ := isName_iff.mp h.isName
      obtain ⟨left, hwalk⟩ := h.walkFrom_eq followLast
      rw [walk, if_neg hcurrent, if_neg hparent, if_pos hlong] at hwalk
      simp only [bind, Except.bind, hwalk]

theorem status_eq_refusal (h : fs.Approached path front name) (hpath : ¬ Acceptable path)
    (followLast : Bool) : fs.status followLast path = .error (refusal path) := by
  rw [status, h.find_eq_refusal hpath]
  rfl

end Approached

theorem refusal_ne_notFound (hpath : path ≠ []) : refusal path ≠ .notFound := by
  unfold refusal checkPath checkText
  by_cases hnul : '\x00' ∈ path
  · simp [hnul, bind, Except.bind]
  · by_cases hlong : maxPathBytes < Text.byteCount path
    · simp [hnul, hpath, hlong, bind, Except.bind, throw, throwThe, MonadExceptOf.throw]
    · simp [hnul, hpath, hlong, bind, Except.bind, pure, Except.pure]

end FileSystem

namespace Change

open FileSystem StateAction

variable {fs fs' cleared cleared' : FileSystem} {path : Text} {front : List Text} {name : Text}

theorem exists_clear_of_approached (h : fs.Approached path front name) (hpath : Acceptable path) :
    ∃ fs', clear path fs = (.ok (), fs') ∧ ClearsAll path fs fs' :=
  exists_clear_of_exposed (h.exposed hpath) hpath h.course_eq h.isName (.inl h.not_endsIdly)

theorem sameEntries_of_clearsAll (h : ClearsAll path fs cleared)
    (h' : ClearsAll path fs' cleared') (hdirectory : fs'.workingDirectory = fs.workingDirectory)
    (hsame : ∀ place, ¬ fs.goal path <+: place → fs'.entryAt place = fs.entryAt place) :
    SameEntries cleared cleared' := by
  have hgoal := goal_congr hdirectory path
  have hover := overshoots_congr hdirectory path
  refine ⟨fun place => ?_, ?_⟩
  · by_cases hbegins : fs.goal path <+: place
    · by_cases heq : fs.goal path = place
      · subst heq
        by_cases hbelow : fs.Overshoots path
        · rw [h.stays hbelow, ← hgoal, h'.stays (hover.mpr hbelow)]
        · rw [h.goes hbelow, ← hgoal, h'.goes (mt hover.mp hbelow)]
      · rw [h.below ⟨hbegins, heq⟩, h'.below (by rw [hgoal]; exact ⟨hbegins, heq⟩)]
    · rw [h.removes.kept hbegins, h'.removes.kept (hgoal ▸ hbegins), hsame place hbegins]
  · rw [h.removes.workingDirectory, h'.removes.workingDirectory, hdirectory]

theorem enclave_of_clearsAll (h : fs.Approached path front name)
    (hcleared : ClearsAll path fs fs') : fs'.Enclave path (fs.goal path) := by
  have hdirectory := hcleared.removes.workingDirectory
  refine ⟨goal_congr hdirectory path, fun place hmem => ?_, fun place target hbegins => ?_⟩
  · rw [way_congr hdirectory] at hmem
    by_cases hbelow : fs.goal path <+: place
    · exact .inl hbelow
    · rw [hcleared.removes.kept hbelow]
      refine .inr ((h.mem_way hmem).resolve_right ?_)
      rintro rfl
      exact hbelow List.prefix_rfl
  · by_cases heq : fs.goal path = place
    · subst heq
      rcases hcleared.goal with hnone | hfound
      · simp [hnone]
      · simp [hfound]
    · simp [hcleared.below ⟨hbegins, heq⟩]

theorem clear_of_refused (h : fs.Approached path front name) (hpath : ¬ Acceptable path) :
    clear path fs = (.ok (), fs) := by
  rw [clear, h.status_eq_refusal hpath]

theorem makeDirectories_of_refused (h : fs.Approached path front name)
    (hpath : ¬ Acceptable path) : makeDirectories path fs = (.error (refusal path), fs) := by
  have hne : path ≠ [] := by
    rintro rfl
    have hnil : [] = front ++ [name] := h.steps_eq
    simp at hnil
  have hmake : makeDirectory path fs = (.error (refusal path), fs) := by
    cases hcheck : checkPath path with
    | error e => simp only [makeDirectory, bind_apply, ofView, refusal, hcheck]
    | ok _ =>
        simp only [makeDirectory, bind_apply, ofView, hcheck, h.dropEndSlashes_eq,
          h.find_eq_refusal hpath]
  have hdirectory : fs.isDirectory path = false := by
    rw [isDirectory, h.status_eq_refusal hpath]
  rw [makeDirectories, makeDirectoriesFrom_cons hne, hmake]
  cases hrefusal : refusal path with
  | notFound => exact absurd hrefusal (refusal_ne_notFound hne)
  | _ => simp [settled, hdirectory]

end Change

end TemplateSuite
