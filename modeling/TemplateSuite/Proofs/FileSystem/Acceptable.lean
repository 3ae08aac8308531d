import TemplateSuite.Proofs.FileSystem.Stations
import TemplateSuite.Proofs.Path.Lineage

namespace TemplateSuite.FileSystem

variable {fs : FileSystem} {path above : Text} {place : Location} {entry : Entry}

theorem byteCount_append (front back : Text) :
    Text.byteCount (front ++ back) = Text.byteCount front + Text.byteCount back := by
  induction front with
  | nil => exact (Nat.zero_add _).symm
  | cons c rest ih =>
      rw [List.cons_append, Text.byteCount, Text.byteCount, ih, Nat.add_assoc]

theorem checkPath_eq_ok_iff :
    checkPath path = .ok () ↔
      '\x00' ∉ path ∧ path ≠ [] ∧ Text.byteCount path ≤ maxPathBytes := by
  unfold checkPath checkText
  by_cases hnul : '\x00' ∈ path
  · simp [hnul, bind, Except.bind]
  · by_cases hnil : path = []
    · simp [hnil, bind, Except.bind]
    · by_cases hlong : maxPathBytes < Text.byteCount path
      · simp [hnul, hnil, hlong, bind, Except.bind, throw, throwThe, MonadExceptOf.throw]
      · simp [hnul, hnil, hlong, bind, Except.bind, pure, Except.pure]
        omega

theorem checkPath_of_readText {text : Text} (h : fs.readText path = .ok text) :
    checkPath path = .ok () := by
  cases hstatus : fs.status true path with
  | error fault =>
      rw [readText, hstatus] at h
      cases h
  | ok found => exact (status_eq_ok_iff.mp hstatus).1

theorem Acceptable.of_prefix (h : Acceptable path) (hbegins : above <+: path) (hne : above ≠ [])
    (hcourse : Path.course above ⊆ Path.course path) : Acceptable above where
  checkPath_eq := by
    obtain ⟨hnul, -, hlength⟩ := checkPath_eq_ok_iff.mp h.checkPath_eq
    obtain ⟨back, rfl⟩ := hbegins
    rw [byteCount_append] at hlength
    exact checkPath_eq_ok_iff.mpr
      ⟨fun hmem => hnul (List.mem_append_left _ hmem), hne, by omega⟩
  namesFit := h.namesFit.of_subset hcourse

theorem Acceptable.of_mem_ancestors (h : Acceptable path)
    (hmem : above ∈ path :: Path.ancestors path) (hne : above ≠ []) : Acceptable above := by
  rcases List.mem_cons.mp hmem with rfl | habove
  · exact h
  · exact h.of_prefix (Path.prefix_of_mem_ancestors habove) hne
      (Path.begins_of_mem_ancestors habove).2.1.subset

theorem prefix_dropEndSlashes (path : Text) : Change.dropEndSlashes path <+: path := by
  obtain ⟨n, hpath⟩ := Path.exists_eq_append_slashes path
  unfold Change.dropEndSlashes
  cases hkept : path.reverse.dropWhile (· == '/') with
  | nil => exact List.take_prefix 1 path
  | cons last front =>
      rw [hkept] at hpath
      exact ⟨_, hpath.symm⟩

theorem dropEndSlashes_ne_nil (h : path ≠ []) : Change.dropEndSlashes path ≠ [] := by
  unfold Change.dropEndSlashes
  cases path.reverse.dropWhile (· == '/') with
  | nil => simpa using h
  | cons last front => simp

theorem Acceptable.dropEndSlashes (h : Acceptable path) :
    Acceptable (Change.dropEndSlashes path) := by
  have hne := (checkPath_eq_ok_iff.mp h.checkPath_eq).2.1
  refine h.of_prefix (prefix_dropEndSlashes path) (dropEndSlashes_ne_nil hne) ?_
  rw [course_dropEndSlashes]
  exact List.Subset.refl _

theorem startOf_dropEndSlashes (here : Location) (path : Text) :
    startOf here (Change.dropEndSlashes path) = startOf here path := by
  rw [startOf, startOf, isAbsolute_dropEndSlashes]

theorem Walks.namesFit {mode : WalkMode} {links : Nat} {here : Location} {path : List Text}
    {spot : Spot} (h : Walks fs mode links here path spot) (hfree : fs.LinkFree []) :
    NamesFit path := by
  have hnil : NamesFit [] := fun _ hmem => nomatch hmem
  induction h with
  | arrive => exact hnil
  | stay _ ih | climb _ ih => exact ih.cons nofun
  | free hfits _ | file hfits _ => exact hnil.cons fun _ => hfits.name_le
  | enter hfits _ _ ih => exact ih.cons fun _ => hfits.name_le
  | stop _ _ hentry => exact absurd hentry (hfree.ne_link _ _)
  | follow _ _ hentry => exact absurd hentry (hfree.ne_link _ _)

theorem LeadsTo.reaches {mode : WalkMode} {spot : Spot} (h : fs.LeadsTo mode path spot)
    (hfree : fs.LinkFree []) :
    Reaches fs (startOf fs.workingDirectory path) (steps path) spot :=
  Walks.reaches h hfree

theorem acceptable_of_leadsTo {mode : WalkMode} {spot : Spot} (hcheck : checkPath path = .ok ())
    (h : fs.LeadsTo mode path spot) (hfree : fs.LinkFree []) : Acceptable path where
  checkPath_eq := hcheck
  namesFit := by
    rw [← filter_steps]
    exact (Walks.namesFit h hfree).of_subset List.filter_sublist.subset

theorem status_of_directories {followLast : Bool} (hpath : Acceptable path)
    (h : ∀ place ∈ fs.way path, fs.entryAt place = some .directory) :
    fs.status followLast path = .ok (fs.goal path, .directory) := by
  rw [way, ← stations_steps] at h
  refine status_eq_ok_iff.mpr ⟨hpath.checkPath_eq, ?_⟩
  rw [goal, ← arrival_steps]
  exact walks_of_directories (namesFit_steps hpath.namesFit) h

theorem isDirectory_of_directories (hpath : Acceptable path)
    (h : ∀ place ∈ fs.way path, fs.entryAt place = some .directory) :
    fs.isDirectory path = true := by
  rw [isDirectory, status_of_directories hpath h]
  rfl

theorem of_status {followLast : Bool} (hfree : fs.LinkFree [])
    (h : fs.status followLast path = .ok (place, entry)) :
    Acceptable path ∧ place = fs.goal path ∧
      (entry = .directory → ∀ passed ∈ fs.way path, fs.entryAt passed = some .directory) := by
  obtain ⟨hcheck, hleads⟩ := status_eq_ok_iff.mp h
  refine ⟨acceptable_of_leadsTo hcheck hleads hfree, ?_⟩
  rw [way, goal, ← stations_steps, ← arrival_steps]
  cases hleads.reaches hfree with
  | directory hall => exact ⟨rfl, fun _ => hall⟩
  | file =>
      refine ⟨rfl, ?_⟩
      intro hdirectory
      cases hdirectory

theorem of_isDirectory (hfree : fs.LinkFree []) (h : fs.isDirectory path = true) :
    Acceptable path ∧ ∀ place ∈ fs.way path, fs.entryAt place = some .directory := by
  unfold isDirectory at h
  split at h
  · rename_i place entry hstatus
    obtain ⟨hpath, -, hall⟩ := of_status hfree hstatus
    cases entry with
    | directory => exact ⟨hpath, hall rfl⟩
    | file | link => cases h
  · cases h

variable {front : List Text} {name : Text}

theorem way_of_last_name (fs : FileSystem)
    (hsteps : steps (Change.dropEndSlashes path) = front ++ [name]) (hname : isName name) :
    fs.way path = stations (startOf fs.workingDirectory path) front ++ [fs.goal path] ∧
      fs.goal path = arrival (startOf fs.workingDirectory path) front ++ [name] := by
  have hgoal : fs.goal path = arrival (startOf fs.workingDirectory path) front ++ [name] := by
    rw [goal, ← course_dropEndSlashes, ← arrival_steps, hsteps, arrival_concat hname]
  refine ⟨?_, hgoal⟩
  rw [way, ← course_dropEndSlashes, ← stations_steps, hsteps, stations_append,
    stations_enter _ _ hname, stations_nil, ← hgoal]

theorem directory_before_last_name (hsteps : steps (Change.dropEndSlashes path) = front ++ [name])
    (hname : isName name) (hbase : fs.entryAt (fs.base path) = some .directory)
    (h : ∀ place ∈ stations (startOf fs.workingDirectory path) front,
      fs.entryAt place = some .directory) :
    fs.entryAt (arrival (startOf fs.workingDirectory path) front) = some .directory := by
  refine directory_arrival ?_ h
  rw [base, ← course_dropEndSlashes, ← footing_steps, hsteps, footing_append,
    footing_enter _ _ hname] at hbase
  split at hbase
  · rename_i hnone
    rwa [footing_of_stations_eq_nil hnone]
  · exact hbase

end TemplateSuite.FileSystem
