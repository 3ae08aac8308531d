import TemplateSuite.Proofs.FileSystem.Resolve

/-!
Stations. Where there are no links, the steps alone tell to which places they lead, and whether a
walk arrives depends on what is at these places and on nothing else.
-/

namespace TemplateSuite.FileSystem

/-- The places that the names among the steps lead to, in order. -/
def stations (here : Location) : List Text → List Location
  | [] => []
  | step :: rest =>
    if step = ['.'] then stations here rest
    else if step = ['.', '.'] then stations here.dropLast rest
    else (here ++ [step]) :: stations (here ++ [step]) rest

/-- The place that the steps lead to. -/
def arrival (here : Location) : List Text → Location
  | [] => here
  | step :: rest =>
    if step = ['.'] then arrival here rest
    else if step = ['.', '.'] then arrival here.dropLast rest
    else arrival (here ++ [step]) rest

/-- The place in which the first name is looked up. -/
def footing (here : Location) : List Text → Location
  | [] => here
  | step :: rest =>
    if step = ['.'] then footing here rest
    else if step = ['.', '.'] then footing here.dropLast rest
    else here

variable {fs fs' : FileSystem} {mode : WalkMode} {links : Nat} {here place : Location}
  {step : Text} {path front back rest names : List Text} {spot : Spot}

section Equations

variable (here rest)

@[simp] theorem stations_nil : stations here [] = [] := rfl

@[simp] theorem stations_stay : stations here (['.'] :: rest) = stations here rest :=
  if_pos rfl

@[simp] theorem stations_climb :
    stations here (['.', '.'] :: rest) = stations here.dropLast rest := by
  rw [stations, if_neg (by decide), if_pos rfl]

@[simp] theorem arrival_nil : arrival here [] = here := rfl

@[simp] theorem arrival_stay : arrival here (['.'] :: rest) = arrival here rest :=
  if_pos rfl

@[simp] theorem arrival_climb : arrival here (['.', '.'] :: rest) = arrival here.dropLast rest := by
  rw [arrival, if_neg (by decide), if_pos rfl]

@[simp] theorem footing_stay : footing here (['.'] :: rest) = footing here rest :=
  if_pos rfl

@[simp] theorem footing_climb : footing here (['.', '.'] :: rest) = footing here.dropLast rest := by
  rw [footing, if_neg (by decide), if_pos rfl]

theorem isName_iff : isName step = true ↔ step ≠ ['.'] ∧ step ≠ ['.', '.'] := by
  simp [isName]

theorem stations_enter (h : isName step) :
    stations here (step :: rest) = (here ++ [step]) :: stations (here ++ [step]) rest := by
  obtain ⟨hcurrent, hparent⟩ := isName_iff.mp h
  rw [stations, if_neg hcurrent, if_neg hparent]

theorem arrival_enter (h : isName step) :
    arrival here (step :: rest) = arrival (here ++ [step]) rest := by
  obtain ⟨hcurrent, hparent⟩ := isName_iff.mp h
  rw [arrival, if_neg hcurrent, if_neg hparent]

theorem footing_enter (h : isName step) : footing here (step :: rest) = here := by
  obtain ⟨hcurrent, hparent⟩ := isName_iff.mp h
  rw [footing, if_neg hcurrent, if_neg hparent]

end Equations

theorem step_cases (step : Text) : step = ['.'] ∨ step = ['.', '.'] ∨ isName step := by
  rw [isName_iff]
  by_cases hcurrent : step = ['.']
  · exact .inl hcurrent
  · by_cases hparent : step = ['.', '.']
    · exact .inr (.inl hparent)
    · exact .inr (.inr ⟨hcurrent, hparent⟩)

theorem stations_append (here : Location) (front back : List Text) :
    stations here (front ++ back) = stations here front ++ stations (arrival here front) back := by
  induction front generalizing here with
  | nil => rfl
  | cons step rest ih =>
      rcases step_cases step with rfl | rfl | hname
      · simpa using ih here
      · simpa using ih here.dropLast
      · rw [List.cons_append, stations_enter _ _ hname, stations_enter _ _ hname,
          arrival_enter _ _ hname, ih, List.cons_append]

theorem arrival_append (here : Location) (front back : List Text) :
    arrival here (front ++ back) = arrival (arrival here front) back := by
  induction front generalizing here with
  | nil => rfl
  | cons step rest ih =>
      rcases step_cases step with rfl | rfl | hname
      · simpa using ih here
      · simpa using ih here.dropLast
      · rw [List.cons_append, arrival_enter _ _ hname, arrival_enter _ _ hname, ih]

theorem stations_filter (here : Location) (path : List Text) :
    stations here (path.filter (· ≠ ['.'])) = stations here path := by
  induction path generalizing here with
  | nil => rfl
  | cons step rest ih =>
      rcases step_cases step with rfl | rfl | hname
      · simpa using ih here
      · simpa using ih here.dropLast
      · rw [List.filter_cons_of_pos (by simpa using (isName_iff.mp hname).1),
          stations_enter _ _ hname, stations_enter _ _ hname, ih]

theorem arrival_filter (here : Location) (path : List Text) :
    arrival here (path.filter (· ≠ ['.'])) = arrival here path := by
  induction path generalizing here with
  | nil => rfl
  | cons step rest ih =>
      rcases step_cases step with rfl | rfl | hname
      · simpa using ih here
      · simpa using ih here.dropLast
      · rw [List.filter_cons_of_pos (by simpa using (isName_iff.mp hname).1),
          arrival_enter _ _ hname, arrival_enter _ _ hname, ih]

theorem footing_filter (here : Location) (path : List Text) :
    footing here (path.filter (· ≠ ['.'])) = footing here path := by
  induction path generalizing here with
  | nil => rfl
  | cons step rest ih =>
      rcases step_cases step with rfl | rfl | hname
      · simpa using ih here
      · simpa using ih here.dropLast
      · rw [List.filter_cons_of_pos (by simpa using (isName_iff.mp hname).1),
          footing_enter _ _ hname, footing_enter _ _ hname]

theorem arrival_of_names (h : ∀ step ∈ names, isName step) (here : Location) :
    arrival here names = here ++ names := by
  induction names generalizing here with
  | nil => exact (List.append_nil here).symm
  | cons step rest ih =>
      rw [arrival_enter _ _ (h step List.mem_cons_self),
        ih (fun other hmem => h other (List.mem_cons_of_mem _ hmem)), List.append_assoc,
        List.singleton_append]

theorem mem_stations_of_names (h : ∀ step ∈ names, isName step) :
    place ∈ stations here names ↔
      ∃ front, front ≠ [] ∧ front <+: names ∧ place = here ++ front := by
  induction names generalizing here with
  | nil =>
      constructor
      · intro hmem
        cases hmem
      · rintro ⟨front, hne, hprefix, -⟩
        exact absurd (List.prefix_nil.mp hprefix) hne
  | cons step rest ih =>
      rw [stations_enter _ _ (h step List.mem_cons_self), List.mem_cons,
        ih fun other hmem => h other (List.mem_cons_of_mem _ hmem)]
      constructor
      · rintro (rfl | ⟨front, -, hprefix, rfl⟩)
        · exact ⟨[step], List.cons_ne_nil _ _, ⟨rest, rfl⟩, rfl⟩
        · exact ⟨step :: front, List.cons_ne_nil _ _, (List.prefix_cons_inj step).mpr hprefix,
            by rw [List.append_assoc, List.singleton_append]⟩
      · rintro ⟨front, hne, hprefix, rfl⟩
        obtain ⟨first, others, rfl⟩ := List.exists_cons_of_ne_nil hne
        obtain ⟨rfl, hothers⟩ := List.cons_prefix_cons.mp hprefix
        by_cases hnil : others = []
        · subst hnil
          exact .inl rfl
        · exact .inr ⟨others, hnil, hothers, by rw [List.append_assoc, List.singleton_append]⟩

theorem directory_footing (path : List Text) (h : fs.entryAt here = some .directory) :
    fs.entryAt (footing here path) = some .directory := by
  induction path generalizing here with
  | nil => exact h
  | cons step rest ih =>
      rcases step_cases step with rfl | rfl | hname
      · simpa using ih h
      · simpa using ih (entryAt_dropLast h)
      · rwa [footing_enter _ _ hname]

theorem directory_arrival (hfooting : fs.entryAt (footing here path) = some .directory)
    (h : ∀ place ∈ stations here path, fs.entryAt place = some .directory) :
    fs.entryAt (arrival here path) = some .directory := by
  induction path generalizing here with
  | nil => exact hfooting
  | cons step rest ih =>
      rcases step_cases step with rfl | rfl | hname
      · simp only [stations_stay, arrival_stay, footing_stay] at *
        exact ih hfooting h
      · simp only [stations_climb, arrival_climb, footing_climb] at *
        exact ih hfooting h
      · rw [stations_enter _ _ hname] at h
        rw [arrival_enter _ _ hname]
        exact ih (directory_footing rest (h _ List.mem_cons_self))
          fun place hmem => h place (List.mem_cons_of_mem _ hmem)

theorem footing_append (here : Location) (front back : List Text) :
    footing here (front ++ back) =
      if stations here front = [] then footing (arrival here front) back
      else footing here front := by
  induction front generalizing here with
  | nil => rfl
  | cons step rest ih =>
      rcases step_cases step with rfl | rfl | hname
      · simpa using ih here
      · simpa using ih here.dropLast
      · rw [List.cons_append, footing_enter _ _ hname, stations_enter _ _ hname,
          if_neg (List.cons_ne_nil _ _), footing_enter _ _ hname]

theorem footing_of_stations_eq_nil (h : stations here path = []) :
    footing here path = arrival here path := by
  have happend := footing_append here path []
  rwa [List.append_nil, if_pos h] at happend

theorem exists_of_stations_eq_cons {first : Location} {others : List Location}
    (h : stations here path = first :: others) :
    ∃ name, first = footing here path ++ [name] := by
  induction path generalizing here with
  | nil => cases h
  | cons step rest ih =>
      rcases step_cases step with rfl | rfl | hname
      · simp only [stations_stay, footing_stay] at *
        exact ih h
      · simp only [stations_climb, footing_climb] at *
        exact ih h
      · rw [stations_enter _ _ hname] at h
        rw [footing_enter _ _ hname]
        exact ⟨step, (List.cons.inj h).1.symm⟩

theorem LinkFree.ne_link (h : fs.LinkFree []) (place : Location) (target : Text) :
    fs.entryAt place ≠ some (.link target) :=
  h place target List.nil_prefix

theorem resolves_of_ne_link
    (h : ∀ place ∈ stations here path, ∀ target, fs.entryAt place ≠ some (.link target)) :
    fs.Resolves here path (arrival here path) := by
  induction path generalizing here with
  | nil => exact .arrive
  | cons step rest ih =>
      rcases step_cases step with rfl | rfl | hname
      · rw [stations_stay] at h
        simpa using Resolves.stay (ih h)
      · rw [stations_climb] at h
        simpa using Resolves.climb (ih h)
      · rw [stations_enter _ _ hname] at h
        rw [arrival_enter _ _ hname]
        exact .enter hname (h _ List.mem_cons_self)
          (ih fun place hmem => h place (List.mem_cons_of_mem _ hmem))

theorem resolves_arrival (hfree : fs.LinkFree []) (here : Location) (path : List Text) :
    fs.Resolves here path (arrival here path) :=
  resolves_of_ne_link fun place _ => hfree.ne_link place

/-- What a walk can come to: a directory, if there are directories all the way, or a file or a free
name in the last of them. -/
inductive Reaches (fs : FileSystem) (here : Location) (path : List Text) : Spot → Prop
  | directory : (∀ place ∈ stations here path, fs.entryAt place = some .directory) →
      Reaches fs here path (.present (arrival here path) .directory)
  | vacant {front : List Text} {name : Text} : path = front ++ [name] → isName name →
      (∀ place ∈ stations here front, fs.entryAt place = some .directory) →
        fs.entryAt (arrival here path) = none → Reaches fs here path (.vacant (arrival here path))
  | file {front : List Text} {name : Text} {content : Content} {executable : Bool} :
      path = front ++ [name] → isName name →
        (∀ place ∈ stations here front, fs.entryAt place = some .directory) →
          fs.entryAt (arrival here path) = some (.file content executable) →
            Reaches fs here path (.present (arrival here path) (.file content executable))

namespace Reaches

theorem cons {there : Location}
    (harrival : ∀ path, arrival here (step :: path) = arrival there path)
    (hstations : ∀ path, (∀ place ∈ stations there path, fs.entryAt place = some .directory) →
      ∀ place ∈ stations here (step :: path), fs.entryAt place = some .directory)
    (h : Reaches fs there rest spot) : Reaches fs here (step :: rest) spot := by
  cases h with
  | directory hall =>
      rw [← harrival]
      exact .directory (hstations _ hall)
  | @vacant front name hpath hname hfront hnone =>
      rw [← harrival] at hnone ⊢
      exact .vacant (congrArg (step :: ·) hpath) hname (hstations front hfront) hnone
  | @file front name content executable hpath hname hfront hfile =>
      rw [← harrival] at hfile ⊢
      exact .file (congrArg (step :: ·) hpath) hname (hstations front hfront) hfile

theorem stay (h : Reaches fs here rest spot) : Reaches fs here (['.'] :: rest) spot :=
  h.cons (arrival_stay here) fun _ hall => by simpa using hall

theorem climb (h : Reaches fs here.dropLast rest spot) :
    Reaches fs here (['.', '.'] :: rest) spot :=
  h.cons (arrival_climb here) fun _ hall => by simpa using hall

theorem enter (hstep : isName step) (hentry : fs.entryAt (here ++ [step]) = some .directory)
    (h : Reaches fs (here ++ [step]) rest spot) : Reaches fs here (step :: rest) spot := by
  refine h.cons (fun path => arrival_enter here path hstep) fun path hall place hmem => ?_
  rw [stations_enter _ _ hstep] at hmem
  rcases List.mem_cons.mp hmem with rfl | hrest
  · exact hentry
  · exact hall place hrest

end Reaches

theorem Walks.reaches (h : Walks fs mode links here path spot) (hfree : fs.LinkFree []) :
    Reaches fs here path spot := by
  induction h with
  | arrive => exact .directory (by simp)
  | stay _ ih => exact ih.stay
  | climb _ ih => exact ih.climb
  | @free links here step hfits hentry =>
      have hname := isName_of_fits hfits
      have harrival : arrival here [step] = here ++ [step] := arrival_enter _ _ hname
      rw [← harrival] at hentry ⊢
      exact .vacant (List.nil_append _).symm hname (by simp) hentry
  | enter hfits hentry _ ih => exact ih.enter (isName_of_fits hfits) hentry
  | @file links here step content executable hfits hentry =>
      have hname := isName_of_fits hfits
      have harrival : arrival here [step] = here ++ [step] := arrival_enter _ _ hname
      rw [← harrival] at hentry ⊢
      exact .file (List.nil_append _).symm hname (by simp) hentry
  | stop _ _ hentry => exact absurd hentry (hfree.ne_link _ _)
  | follow _ _ hentry => exact absurd hentry (hfree.ne_link _ _)

/-- The names are not too long. -/
def NamesFit (path : List Text) : Prop :=
  ∀ step ∈ path, isName step → Text.byteCount step ≤ maxNameBytes

theorem NamesFit.of_subset (h : NamesFit path) (hsubset : front ⊆ path) : NamesFit front :=
  fun step hmem => h step (hsubset hmem)

theorem NamesFit.cons (hstep : isName step → Text.byteCount step ≤ maxNameBytes)
    (h : NamesFit rest) : NamesFit (step :: rest) := by
  intro other hmem hname
  rcases List.mem_cons.mp hmem with rfl | hlater
  · exact hstep hname
  · exact h other hlater hname

theorem fits_of_isName {followLast : Bool} (hname : isName step)
    (hlength : Text.byteCount step ≤ maxNameBytes) : Fits { followLast } here step where
  ne_current := (isName_iff.mp hname).1
  ne_parent := (isName_iff.mp hname).2
  name_le := hlength
  place_le := nofun

theorem walks_of_directories {followLast : Bool} (hfits : NamesFit path)
    (h : ∀ place ∈ stations here path, fs.entryAt place = some .directory) :
    Walks fs { followLast } links here path (.present (arrival here path) .directory) := by
  induction path generalizing here with
  | nil => exact .arrive
  | cons step rest ih =>
      have hrest : NamesFit rest := hfits.of_subset (List.subset_cons_self _ _)
      rcases step_cases step with rfl | rfl | hname
      · simp only [stations_stay, arrival_stay] at *
        exact .stay (ih hrest h)
      · simp only [stations_climb, arrival_climb] at *
        exact .climb (ih hrest h)
      · rw [stations_enter _ _ hname] at h
        rw [arrival_enter _ _ hname]
        have hdirectories := ih hrest fun place hmem => h place (List.mem_cons_of_mem _ hmem)
        exact .enter (fits_of_isName hname (hfits step List.mem_cons_self hname))
          (h _ List.mem_cons_self) hdirectories

/-- A walk through directories comes to the last name in the place that they lead to. -/
theorem walk_of_last_name {followLast : Bool} {name : Text} (hfits : NamesFit (front ++ [name]))
    (hname : isName name) (h : ∀ place ∈ stations here front, fs.entryAt place = some .directory) :
    ∃ left, fs.walk { followLast } links here (front ++ [name]) =
      fs.walk { followLast } left (arrival here front) [name] ∧
        Fits { followLast } (arrival here front) name := by
  have hfront : NamesFit front := hfits.of_subset (List.subset_append_left _ _)
  obtain ⟨left, hleft⟩ :=
    (walks_of_directories hfront h).walk_append followLast (List.cons_ne_nil name [])
  exact ⟨left, hleft, fits_of_isName hname (hfits name (by simp) hname)⟩

theorem arrival_concat {name : Text} (hname : isName name) (here : Location) (front : List Text) :
    arrival here (front ++ [name]) = arrival here front ++ [name] := by
  rw [arrival_append, arrival_enter _ _ hname, arrival_nil]

theorem Reaches.walk_eq {followLast : Bool} (h : Reaches fs here path spot)
    (hfits : NamesFit path) : fs.walk { followLast } links here path = .ok spot := by
  cases h with
  | directory hall => exact walk_eq_ok_iff.mpr (walks_of_directories hfits hall)
  | vacant hpath hname hfront hnone =>
      subst hpath
      obtain ⟨left, hwalk, hlast⟩ := walk_of_last_name hfits hname hfront
      rw [arrival_concat hname] at hnone ⊢
      rw [hwalk, walk_cons_of_fits hlast, hnone]
      rfl
  | file hpath hname hfront hfile =>
      subst hpath
      obtain ⟨left, hwalk, hlast⟩ := walk_of_last_name hfits hname hfront
      rw [arrival_concat hname] at hfile ⊢
      rw [hwalk, walk_cons_of_fits hlast, hfile]
      rfl

theorem walk_of_missing (hfits : NamesFit (path ++ back))
    (hopen : ∀ place ∈ stations here path,
      fs.entryAt place = none ∨ fs.entryAt place = some .directory)
    (hmissing : ∃ place ∈ stations here path, fs.entryAt place = none) {followLast : Bool} :
    fs.walk { followLast } links here (path ++ back) = .error .notFound ∨
      back = [] ∧
        ∃ place, fs.walk { followLast } links here (path ++ back) = .ok (.vacant place) := by
  induction path generalizing here with
  | nil =>
      obtain ⟨place, hmem, -⟩ := hmissing
      cases hmem
  | cons step rest ih =>
      have hrest : NamesFit (rest ++ back) := hfits.of_subset (List.subset_cons_self _ _)
      rcases step_cases step with rfl | rfl | hname
      · rw [List.cons_append, walk_stay]
        simp only [stations_stay] at *
        exact ih hrest hopen hmissing
      · rw [List.cons_append, walk_climb]
        simp only [stations_climb] at *
        exact ih hrest hopen hmissing
      · have hfitting : Fits { followLast } here step :=
          fits_of_isName hname (hfits step List.mem_cons_self hname)
        rw [stations_enter _ _ hname] at hopen hmissing
        rw [List.cons_append, walk_cons_of_fits hfitting]
        rcases hopen _ List.mem_cons_self with hnone | hdirectory
        · rw [hnone]
          by_cases hend : rest ++ back = []
          · exact .inr ⟨(List.append_eq_nil_iff.mp hend).2, _, if_pos hend⟩
          · exact .inl (if_neg hend)
        · rw [hdirectory]
          refine ih hrest (fun place hmem => hopen place (List.mem_cons_of_mem _ hmem)) ?_
          obtain ⟨place, hmem, hnone⟩ := hmissing
          rcases List.mem_cons.mp hmem with rfl | hlater
          · cases hdirectory.symm.trans hnone
          · exact ⟨place, hlater, hnone⟩

/-- The places that the names of a path lead to. -/
def way (fs : FileSystem) (path : Text) : List Location :=
  stations (startOf fs.workingDirectory path) (Path.course path)

/-- The place that a path leads to. -/
def goal (fs : FileSystem) (path : Text) : Location :=
  arrival (startOf fs.workingDirectory path) (Path.course path)

/-- The place in which the first name of a path is looked up. -/
def base (fs : FileSystem) (path : Text) : Location :=
  footing (startOf fs.workingDirectory path) (Path.course path)

theorem way_congr {fs fs' : FileSystem} (h : fs'.workingDirectory = fs.workingDirectory)
    (path : Text) : fs'.way path = fs.way path := by
  rw [way, way, h]

theorem goal_congr {fs fs' : FileSystem} (h : fs'.workingDirectory = fs.workingDirectory)
    (path : Text) : fs'.goal path = fs.goal path := by
  rw [goal, goal, h]

theorem base_congr {fs fs' : FileSystem} (h : fs'.workingDirectory = fs.workingDirectory)
    (path : Text) : fs'.base path = fs.base path := by
  rw [base, base, h]

theorem exists_first_of_way {path : Text} (h : fs.way path ≠ []) :
    ∃ name, fs.base path ++ [name] ∈ fs.way path := by
  obtain ⟨first, others, hstations⟩ := List.exists_cons_of_ne_nil h
  obtain ⟨name, rfl⟩ := exists_of_stations_eq_cons hstations
  exact ⟨name, hstations ▸ List.mem_cons_self⟩

theorem stations_steps (here : Location) (path : Text) :
    stations here (steps path) = stations here (Path.course path) := by
  rw [← filter_steps, stations_filter]

theorem arrival_steps (here : Location) (path : Text) :
    arrival here (steps path) = arrival here (Path.course path) := by
  rw [← filter_steps, arrival_filter]

theorem footing_steps (here : Location) (path : Text) :
    footing here (steps path) = footing here (Path.course path) := by
  rw [← filter_steps, footing_filter]

theorem placesOnWay_subset_stations (hfree : fs.LinkFree []) (links : Nat) (here : Location)
    (path : List Text) :
    fs.placesOnWay links here path ⊆ stations here path := by
  induction path generalizing here with
  | nil =>
      rw [placesOnWay]
      exact List.nil_subset _
  | cons step rest ih =>
      rcases step_cases step with rfl | rfl | hname
      · rw [placesOnWay_stay, stations_stay]
        exact ih here
      · rw [placesOnWay_climb, stations_climb]
        exact ih here.dropLast
      · obtain ⟨hcurrent, hparent⟩ := isName_iff.mp hname
        rw [placesOnWay, if_neg hcurrent, if_neg hparent, stations_enter _ _ hname]
        refine List.cons_subset_cons _ ?_
        cases hentry : fs.entryAt (here ++ [step]) with
        | none => exact List.nil_subset _
        | some entry =>
            cases entry with
            | directory => exact ih _
            | file content executable => exact List.nil_subset _
            | link target => exact absurd hentry (hfree.ne_link _ target)

theorem route_subset_way (hfree : fs.LinkFree []) (path : Text) :
    fs.route path ⊆ fs.way path := by
  rw [way, ← stations_steps]
  exact placesOnWay_subset_stations hfree _ _ _

theorem denotes_iff_goal (hfree : fs.LinkFree []) {path : Text} :
    fs.Denotes path place ↔ place = fs.goal path := by
  constructor
  · exact fun h => Resolves.unique h (resolves_arrival hfree _ _)
  · rintro rfl
    exact resolves_arrival hfree _ _

/-- The system takes the path, whatever is there. -/
structure Acceptable (path : Text) : Prop where
  checkPath_eq : checkPath path = .ok ()
  namesFit : NamesFit (Path.course path)

theorem namesFit_steps {path : Text} (h : NamesFit (Path.course path)) : NamesFit (steps path) := by
  intro step hmem hname
  refine h step ?_ hname
  rw [← filter_steps]
  exact List.mem_filter.mpr ⟨hmem, by simpa using (isName_iff.mp hname).1⟩

end TemplateSuite.FileSystem
