import TemplateSuite.Proofs.FileSystem.Entries
import TemplateSuite.Proofs.FileSystem.Resolve
import TemplateSuite.Proofs.Text.Lines

namespace TemplateSuite

namespace FileSystem

/-- The text can stand between the slashes of a path and is a name there. -/
structure IsProper (name : Text) : Prop where
  ne_nil : name ≠ []
  slash_not_mem : '/' ∉ name
  isName : isName name

/-- The working directory is given by names. -/
def NamedHere (fs : FileSystem) : Prop :=
  ∀ name ∈ fs.workingDirectory, IsProper name

end FileSystem

open FileSystem

theorem Path.pieces_of_isProper {name : Text} (h : IsProper name) : pieces name = [name] := by
  rw [pieces, List.splitOn_eq_singleton h.slash_not_mem]
  exact List.filter_cons_of_pos (decide_eq_true h.ne_nil)

theorem Path.pieces_append_names (front : Text) {names : List Text}
    (h : ∀ name ∈ names, IsProper name) :
    pieces (front ++ names.flatMap ('/' :: ·)) = pieces front ++ names := by
  induction names generalizing front with
  | nil => rw [List.flatMap_nil, List.append_nil, List.append_nil]
  | cons name rest ih =>
      have hrest : ∀ other ∈ rest, IsProper other :=
        fun other hmem => h other (List.mem_cons_of_mem name hmem)
      rw [List.flatMap_cons, List.cons_append, pieces_append_slash, ih name hrest,
        pieces_of_isProper (h name List.mem_cons_self), List.singleton_append]

theorem Location.isAbsolute_toPath (place : Location) : Path.isAbsolute place.toPath = true := by
  cases place with
  | nil => rfl
  | cons name rest => rfl

theorem Location.steps_toPath {place : Location} (h : ∀ name ∈ place, IsProper name) :
    ∃ more, steps place.toPath = place ++ more ∧ ∀ step ∈ more, step = ['.'] := by
  refine ⟨if Path.endsInSlash place.toPath then [['.']] else [], ?_, fun step hmem => ?_⟩
  · have hpieces : Path.pieces place.toPath = place := by
      cases place with
      | nil => rfl
      | cons name rest => exact Path.pieces_append_names [] h
    rw [Path.steps_eq, hpieces]
  · split at hmem
    · exact List.mem_singleton.mp hmem
    · cases hmem

theorem FileSystem.slash_not_mem_of_mem_steps {path step : Text} (h : step ∈ steps path) :
    step ≠ [] ∧ '/' ∉ step := by
  rcases List.mem_append.mp h with hpiece | hdot
  · obtain ⟨hsplit, hne⟩ := List.mem_filter.mp hpiece
    exact ⟨of_decide_eq_true hne, Text.not_mem_of_mem_splitOn hsplit⟩
  · split at hdot
    · rw [List.mem_singleton.mp hdot]
      decide
    · cases hdot

namespace FileSystem

variable {fs : FileSystem} {mode : WalkMode} {links : Nat} {here place : Location}
  {path more : List Text} {spot : Spot} {entry : Entry}

theorem isProper_of_startOf {target name : Text} (hhere : ∀ name ∈ here, IsProper name)
    (h : name ∈ startOf here target) : IsProper name := by
  unfold startOf at h
  split at h
  · cases h
  · exact hhere name h

theorem Walks.isProper (h : Walks fs mode links here path spot)
    (hhere : ∀ name ∈ here, IsProper name) (hsteps : ∀ step ∈ path, step ≠ [] ∧ '/' ∉ step) :
    ∀ name ∈ spot.place, IsProper name := by
  have hconcat : ∀ {here : Location} {step : Text}, (∀ name ∈ here, IsProper name) →
      Fits mode here step → step ≠ [] ∧ '/' ∉ step → ∀ name ∈ here ++ [step], IsProper name := by
    intro here step hhere hfits hstep name hmem
    rcases List.mem_append.mp hmem with hbefore | hlast
    · exact hhere name hbefore
    · rw [List.mem_singleton.mp hlast]
      exact ⟨hstep.1, hstep.2, isName_of_fits hfits⟩
  induction h with
  | arrive => exact hhere
  | stay _ ih => exact ih hhere fun step hmem => hsteps step (List.mem_cons_of_mem _ hmem)
  | climb _ ih =>
      exact ih (fun name hmem => hhere name (List.dropLast_subset _ hmem))
        fun step hmem => hsteps step (List.mem_cons_of_mem _ hmem)
  | enter hfits _ _ ih =>
      exact ih (hconcat hhere hfits (hsteps _ List.mem_cons_self))
        fun step hmem => hsteps step (List.mem_cons_of_mem _ hmem)
  | free hfits | file hfits | stop hfits =>
      exact hconcat hhere hfits (hsteps _ List.mem_cons_self)
  | follow _ _ _ _ ih =>
      refine ih (fun name => isProper_of_startOf hhere) fun step hmem => ?_
      rcases List.mem_append.mp hmem with htarget | hrest
      · exact slash_not_mem_of_mem_steps htarget
      · exact hsteps step (List.mem_cons_of_mem _ hrest)

theorem directory_startOf_of_link {step target : Text} {other : Entry}
    (h : fs.entryAt (here ++ [step]) = some other) :
    fs.entryAt (startOf here target) = some .directory := by
  unfold startOf
  split
  · exact entryAt_root fs
  · exact entryAt_above h

theorem Walks.entryAt_arrival (h : Walks fs mode links here path (.present place entry))
    (hsure : fs.entryAt here = some .directory ∨ ∃ step ∈ path, isName step) :
    fs.entryAt place = some entry := by
  generalize hspot : Spot.present place entry = spot at h
  induction h with
  | arrive =>
      cases hspot
      rcases hsure with hhere | ⟨step, hmem, -⟩
      · exact hhere
      · cases hmem
  | stay _ ih =>
      refine ih (hsure.imp_right ?_) hspot
      rintro ⟨step, hmem, hname⟩
      rcases List.mem_cons.mp hmem with rfl | hrest
      · cases hname
      · exact ⟨step, hrest, hname⟩
  | climb _ ih =>
      refine ih (hsure.imp entryAt_dropLast ?_) hspot
      rintro ⟨step, hmem, hname⟩
      rcases List.mem_cons.mp hmem with rfl | hrest
      · cases hname
      · exact ⟨step, hrest, hname⟩
  | free => cases hspot
  | enter _ hentry _ ih => exact ih (.inl hentry) hspot
  | file _ hentry | stop _ _ hentry =>
      cases hspot
      exact hentry
  | follow _ _ hentry _ ih => exact ih (.inl (directory_startOf_of_link hentry)) hspot

theorem Walks.of_stays (h : Walks fs mode links here more spot)
    (hmore : ∀ step ∈ more, step = ['.']) : spot = .present here .directory := by
  induction more with
  | nil =>
      cases h
      rfl
  | cons step rest ih =>
      rw [hmore step List.mem_cons_self, walks_stay_iff] at h
      exact ih h fun other hmem => hmore other (List.mem_cons_of_mem step hmem)

theorem Walks.of_directory {step : Text} {rest : List Text}
    (h : Walks fs mode links here (step :: rest) spot) (hname : isName step)
    (hdirectory : fs.entryAt (here ++ [step]) = some .directory) :
    Walks fs mode links (here ++ [step]) rest spot := by
  cases h with
  | stay | climb => cases hname
  | enter _ _ hrest => exact hrest
  | free _ hentry | file _ hentry | stop _ _ hentry | follow _ _ hentry =>
      cases hentry.symm.trans hdirectory

theorem Walks.of_name {step : Text} (h : Walks fs mode links here (step :: more) spot)
    (hname : isName step) (hmore : ∀ step ∈ more, step = ['.'])
    (hentry : fs.entryAt (here ++ [step]) = some entry) (hlink : ∀ target, entry ≠ .link target) :
    spot = .present (here ++ [step]) entry := by
  cases h with
  | stay | climb => cases hname
  | free _ hnone => cases hnone.symm.trans hentry
  | enter _ hfound hrest =>
      cases hfound.symm.trans hentry
      exact hrest.of_stays hmore
  | file _ hfound =>
      cases hfound.symm.trans hentry
      rfl
  | stop _ _ hfound | follow _ _ hfound =>
      cases hfound.symm.trans hentry
      exact absurd rfl (hlink _)

theorem Walks.of_names {names : List Text} (h : Walks fs mode links here (names ++ more) spot)
    (hhere : fs.entryAt here = some .directory) (hnames : ∀ name ∈ names, isName name)
    (hmore : ∀ step ∈ more, step = ['.'])
    (hentry : fs.entryAt (here ++ names) = some entry) (hlink : ∀ target, entry ≠ .link target) :
    spot = .present (here ++ names) entry := by
  induction names generalizing here with
  | nil =>
      rw [List.append_nil] at hentry ⊢
      cases hhere.symm.trans hentry
      exact h.of_stays hmore
  | cons step rest ih =>
      obtain ⟨hname, hrest⟩ := List.forall_mem_cons.mp hnames
      cases rest with
      | nil => exact h.of_name hname hmore hentry hlink
      | cons next others =>
          rw [List.append_cons] at hentry ⊢
          -- what stands on the way to an entry is a directory
          have hdirectory : fs.entryAt (here ++ [step]) = some .directory :=
            entryAt_of_encloses ⟨List.prefix_append _ _, by simp⟩ hentry
          exact ih (h.of_directory hname hdirectory) hdirectory hrest hentry

/-- What a canonical path leads to is what the path it stands for leads to. -/
theorem leadsTo_of_canonicalPath {path file : Text} {other : Location} {found : Entry}
    (hhere : fs.NamedHere)
    (hsure : fs.entryAt (startOf fs.workingDirectory path) = some .directory ∨
      ∃ step ∈ steps path, isName step)
    (hfile : fs.canonicalPath path = .ok file)
    (hstatus : fs.status true file = .ok (other, found)) :
    other.toPath = file ∧ fs.LeadsTo { followLast := true } path (.present other found) := by
  obtain ⟨-, place, entry, rfl, hlimited⟩ := canonicalPath_eq_ok_iff.mp hfile
  obtain ⟨-, hagain⟩ := status_eq_ok_iff.mp hstatus
  have hleads : fs.LeadsTo { followLast := true } path (.present place entry) :=
    hlimited.of_limitPlaces
  have hproper : ∀ name ∈ place, IsProper name :=
    Walks.isProper hleads (fun name => isProper_of_startOf hhere)
      fun step hmem => slash_not_mem_of_mem_steps hmem
  obtain ⟨more, hsteps, hmore⟩ := Location.steps_toPath hproper
  have hstart : startOf fs.workingDirectory place.toPath = [] :=
    if_pos (Location.isAbsolute_toPath place)
  unfold LeadsTo at hagain
  rw [hsteps, hstart] at hagain
  have hlink : ∀ target, entry ≠ .link target := fun target heq =>
    hleads.ne_link_of_followLast rfl target (congrArg (Spot.present place) heq)
  have hspot := hagain.of_names (entryAt_root fs) (fun name hmem => (hproper name hmem).isName)
    hmore (hleads.entryAt_arrival hsure) hlink
  cases hspot
  exact ⟨rfl, hleads⟩

theorem status_eq_of_canonicalPath {path file : Text} {other : Location} {found : Entry}
    (hhere : fs.NamedHere) (hname : ∃ step ∈ steps path, isName step)
    (hfile : fs.canonicalPath path = .ok file) (hstatus : fs.status true file = .ok (other, found))
    (hpath : checkPath path = .ok ()) : fs.status true path = .ok (other, found) :=
  status_eq_ok_iff.mpr ⟨hpath, (leadsTo_of_canonicalPath hhere (.inr hname) hfile hstatus).2⟩

theorem readText_of_canonicalPath {path file text : Text} (hhere : fs.NamedHere)
    (hname : ∃ step ∈ steps path, isName step) (hfile : fs.canonicalPath path = .ok file)
    (htext : fs.readText file = .ok text) (hpath : checkPath path = .ok ()) :
    fs.readText path = .ok text := by
  cases hstatus : fs.status true file with
  | error fault =>
      rw [readText, hstatus] at htext
      cases htext
  | ok found =>
      rw [readText, hstatus] at htext
      rw [readText, status_eq_of_canonicalPath hhere hname hfile hstatus hpath]
      exact htext

theorem namedHere_of_root (h : fs.workingDirectory = []) : fs.NamedHere := by
  rw [NamedHere, h]
  exact nofun

theorem steps_dot_slash (path : Text) (hne : path ≠ []) :
    steps ('.' :: '/' :: path) = ['.'] :: steps path := by
  have hpieces : Path.pieces ('.' :: '/' :: path) = ['.'] :: Path.pieces path :=
    Path.pieces_append_slash ['.'] path
  have hend : Path.endsInSlash ('.' :: '/' :: path) = Path.endsInSlash path := by
    obtain ⟨first, rest, rfl⟩ := List.exists_cons_of_ne_nil hne
    rw [Path.endsInSlash, Path.endsInSlash, List.getLast?_cons_cons, List.getLast?_cons_cons]
  rw [Path.steps_eq, Path.steps_eq, hpieces, hend, List.cons_append]

theorem canonicalPath_dot_slash {path : Text} (h : Path.isAbsolute path = false) (hne : path ≠ []) :
    fs.canonicalPath ('.' :: '/' :: path) = fs.canonicalPath path := by
  have htext : checkText ('.' :: '/' :: path) = checkText path := by
    simp [checkText, hne]
  have hstart : startOf fs.workingDirectory ('.' :: '/' :: path) =
      startOf fs.workingDirectory path := by
    rw [startOf, startOf, h]
    rfl
  rw [canonicalPath, canonicalPath, htext, walkFrom, walkFrom, hstart,
    steps_dot_slash path hne, walk_stay]

end FileSystem

end TemplateSuite
