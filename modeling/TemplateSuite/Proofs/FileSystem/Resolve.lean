import TemplateSuite.Proofs.FileSystem.Route
import TemplateSuite.Proofs.FileSystem.Steps
import TemplateSuite.Proofs.Path.Below

namespace TemplateSuite

/-- The location of a spot. -/
def Spot.place : Spot → Location
  | .present place _ => place
  | .vacant place => place

namespace FileSystem

/-- The steps lead from one location to the other when links are followed and every other name is
taken for that of a directory. -/
inductive Resolves (fs : FileSystem) : Location → List Text → Location → Prop
  | arrive {here : Location} : Resolves fs here [] here
  | stay {here place : Location} {rest : List Text} :
      Resolves fs here rest place → Resolves fs here (['.'] :: rest) place
  | climb {here place : Location} {rest : List Text} :
      Resolves fs here.dropLast rest place → Resolves fs here (['.', '.'] :: rest) place
  | enter {here place : Location} {step : Text} {rest : List Text} :
      isName step → (∀ target, fs.entryAt (here ++ [step]) ≠ some (.link target)) →
        Resolves fs (here ++ [step]) rest place → Resolves fs here (step :: rest) place
  | follow {here place : Location} {step target : Text} {rest : List Text} :
      isName step → fs.entryAt (here ++ [step]) = some (.link target) →
        Resolves fs (startOf here target) (steps target ++ rest) place →
          Resolves fs here (step :: rest) place

/-- The location that a path stands for. -/
def Denotes (fs : FileSystem) (path : Text) (place : Location) : Prop :=
  fs.Resolves (startOf fs.workingDirectory path) (Path.course path) place

/-- There is no link at the location or below it. -/
def LinkFree (fs : FileSystem) (place : Location) : Prop :=
  ∀ other target, place <+: other → fs.entryAt other ≠ some (.link target)

/-- The links of both are the same. -/
def SameLinks (fs fs' : FileSystem) : Prop :=
  ∀ place target, fs.entryAt place = some (.link target) ↔ fs'.entryAt place = some (.link target)

variable {fs fs' : FileSystem} {mode : WalkMode} {links : Nat} {here place other : Location}
  {path front back : List Text} {spot : Spot}

theorem isName_of_fits {step : Text} (h : Fits mode here step) : isName step := by
  simpa [isName] using ⟨h.ne_current, h.ne_parent⟩

namespace Resolves

theorem unique (h : fs.Resolves here path place) (hother : fs.Resolves here path other) :
    place = other := by
  induction h with
  | arrive =>
      cases hother
      rfl
  | stay _ ih =>
      cases hother with
      | stay hrest => exact ih hrest
      | enter hname | follow hname => cases hname
  | climb _ ih =>
      cases hother with
      | climb hrest => exact ih hrest
      | enter hname | follow hname => cases hname
  | enter hname hlink _ ih =>
      cases hother with
      | stay | climb => cases hname
      | enter _ _ hrest => exact ih hrest
      | follow _ hfound => exact absurd hfound (hlink _)
  | follow hname hlink _ ih =>
      cases hother with
      | stay | climb => cases hname
      | enter _ hnone => exact absurd hlink (hnone _)
      | follow _ hfound hrest =>
          cases hlink.symm.trans hfound
          exact ih hrest

theorem of_sameLinks (h : fs.Resolves here path place) (hlinks : fs.SameLinks fs') :
    fs'.Resolves here path place := by
  induction h with
  | arrive => exact .arrive
  | stay _ ih => exact .stay ih
  | climb _ ih => exact .climb ih
  | enter hname hlink _ ih =>
      exact .enter hname (fun target hfound => hlink target ((hlinks _ _).mpr hfound)) ih
  | follow hname hlink _ ih => exact .follow hname ((hlinks _ _).mp hlink) ih

theorem stays {steps : List Text} (hsteps : ∀ step ∈ steps, step = ['.'])
    (h : fs.Resolves here path place) : fs.Resolves here (steps ++ path) place := by
  induction steps with
  | nil => exact h
  | cons step rest ih =>
      obtain rfl := hsteps step List.mem_cons_self
      exact .stay (ih fun other hmem => hsteps other (List.mem_cons_of_mem _ hmem))

theorem of_filter_eq {path' : List Text} (h : fs.Resolves here path place)
    (hsame : path'.filter (· ≠ ['.']) = path.filter (· ≠ ['.'])) :
    fs.Resolves here path' place := by
  have hcons : ∀ {step : Text} {rest path' : List Text}, step ≠ ['.'] →
      path'.filter (· ≠ ['.']) = (step :: rest).filter (· ≠ ['.']) →
        ∃ dots more, path' = dots ++ step :: more ∧ (∀ dot ∈ dots, dot = ['.']) ∧
          more.filter (· ≠ ['.']) = rest.filter (· ≠ ['.']) := by
    intro step rest path' hstep heq
    rw [List.filter_cons_of_pos (by simpa using hstep)] at heq
    obtain ⟨dots, more, rfl, hdots, -, hmore⟩ := List.filter_eq_cons_iff.mp heq
    exact ⟨dots, more, rfl, fun dot hmem => by simpa using hdots dot hmem, hmore⟩
  induction h generalizing path' with
  | arrive =>
      rw [List.filter_nil, List.filter_eq_nil_iff] at hsame
      have hdots : ∀ dot ∈ path', dot = ['.'] := fun dot hmem => by simpa using hsame dot hmem
      rw [← List.append_nil path']
      exact stays hdots .arrive
  | stay _ ih => exact ih (by simpa using hsame)
  | climb _ ih =>
      obtain ⟨dots, more, rfl, hdots, hmore⟩ := hcons (by decide) hsame
      exact stays hdots (.climb (ih hmore))
  | enter hname hlink _ ih =>
      obtain ⟨dots, more, rfl, hdots, hmore⟩ := hcons (by rintro rfl; cases hname) hsame
      exact stays hdots (.enter hname hlink (ih hmore))
  | follow hname hlink _ ih =>
      obtain ⟨dots, more, rfl, hdots, hmore⟩ := hcons (by rintro rfl; cases hname) hsame
      refine stays hdots (.follow hname hlink (ih ?_))
      rw [List.filter_append, List.filter_append, hmore]

theorem of_append (h : fs.Resolves here (front ++ back) place) :
    ∃ above, fs.Resolves here front above ∧ fs.Resolves above back place := by
  generalize hpath : front ++ back = path at h
  induction h generalizing front with
  | arrive =>
      obtain ⟨rfl, rfl⟩ := List.append_eq_nil_iff.mp hpath
      exact ⟨_, .arrive, .arrive⟩
  | stay hrest ih =>
      rcases List.append_eq_cons_iff.mp hpath with ⟨rfl, rfl⟩ | ⟨rest, rfl, rfl⟩
      · exact ⟨_, .arrive, .stay hrest⟩
      · obtain ⟨above, hfront, hback⟩ := ih rfl
        exact ⟨above, .stay hfront, hback⟩
  | climb hrest ih =>
      rcases List.append_eq_cons_iff.mp hpath with ⟨rfl, rfl⟩ | ⟨rest, rfl, rfl⟩
      · exact ⟨_, .arrive, .climb hrest⟩
      · obtain ⟨above, hfront, hback⟩ := ih rfl
        exact ⟨above, .climb hfront, hback⟩
  | enter hname hlink hrest ih =>
      rcases List.append_eq_cons_iff.mp hpath with ⟨rfl, rfl⟩ | ⟨rest, rfl, rfl⟩
      · exact ⟨_, .arrive, .enter hname hlink hrest⟩
      · obtain ⟨above, hfront, hback⟩ := ih rfl
        exact ⟨above, .enter hname hlink hfront, hback⟩
  | follow hname hlink hrest ih =>
      rcases List.append_eq_cons_iff.mp hpath with ⟨rfl, rfl⟩ | ⟨rest, rfl, rfl⟩
      · exact ⟨_, .arrive, .follow hname hlink hrest⟩
      · obtain ⟨above, hfront, hback⟩ := ih (List.append_assoc _ _ _)
        exact ⟨above, .follow hname hlink hfront, hback⟩

theorem place_eq (h : fs.Resolves here path place) (hfree : fs.LinkFree here)
    (hnames : ∀ step ∈ path, isName step) : place = here ++ path := by
  induction h with
  | arrive => exact (List.append_nil _).symm
  | stay => cases hnames _ List.mem_cons_self
  | climb => cases hnames _ List.mem_cons_self
  | @enter here place step rest _ _ _ ih =>
      rw [ih (fun other target hother => hfree other target
        ((List.prefix_append here [step]).trans hother)) fun other hmem =>
          hnames other (List.mem_cons_of_mem _ hmem), List.append_assoc, List.singleton_append]
  | follow _ hlink => exact absurd hlink (hfree _ _ (List.prefix_append _ _))

end Resolves

theorem LinkFree.below (h : fs.LinkFree here) (hbelow : here <+: other) : fs.LinkFree other :=
  fun place target hplace => h place target (hbelow.trans hplace)

/-- A walk that arrives at anything but a link arrives at what the steps lead to. -/
theorem Walks.resolves (h : Walks fs mode links here path spot)
    (hspot : ∀ target, spot ≠ .present spot.place (.link target)) :
    fs.Resolves here path spot.place := by
  induction h with
  | arrive => exact .arrive
  | stay _ ih => exact .stay (ih hspot)
  | climb _ ih => exact .climb (ih hspot)
  | free hfits hentry => exact .enter (isName_of_fits hfits) (by simp [hentry]) .arrive
  | enter hfits hentry _ ih => exact .enter (isName_of_fits hfits) (by simp [hentry]) (ih hspot)
  | file hfits hentry => exact .enter (isName_of_fits hfits) (by simp [hentry]) .arrive
  | stop => exact absurd rfl (hspot _)
  | follow hfits _ hentry _ ih => exact .follow (isName_of_fits hfits) hentry (ih hspot)

theorem Walks.of_append (h : Walks fs mode links here (front ++ back) spot) (hback : back ≠ []) :
    ∃ above left, fs.Resolves here front above ∧ Walks fs mode left above back spot := by
  generalize hpath : front ++ back = path at h
  induction h generalizing front with
  | arrive => exact absurd (List.append_eq_nil_iff.mp hpath).2 hback
  | stay hrest ih =>
      rcases List.append_eq_cons_iff.mp hpath with ⟨rfl, rfl⟩ | ⟨rest, rfl, rfl⟩
      · exact ⟨_, _, .arrive, .stay hrest⟩
      · obtain ⟨above, left, hfront, hlast⟩ := ih rfl
        exact ⟨above, left, .stay hfront, hlast⟩
  | climb hrest ih =>
      rcases List.append_eq_cons_iff.mp hpath with ⟨rfl, rfl⟩ | ⟨rest, rfl, rfl⟩
      · exact ⟨_, _, .arrive, .climb hrest⟩
      · obtain ⟨above, left, hfront, hlast⟩ := ih rfl
        exact ⟨above, left, .climb hfront, hlast⟩
  | @free links here step hfits hentry =>
      rcases List.append_eq_cons_iff.mp hpath with ⟨rfl, rfl⟩ | ⟨rest, rfl, hnil⟩
      · exact ⟨here, links, .arrive, .free hfits hentry⟩
      · exact absurd (List.append_eq_nil_iff.mp hnil.symm).2 hback
  | enter hfits hentry hrest ih =>
      rcases List.append_eq_cons_iff.mp hpath with ⟨rfl, rfl⟩ | ⟨rest, rfl, rfl⟩
      · exact ⟨_, _, .arrive, .enter hfits hentry hrest⟩
      · obtain ⟨above, left, hfront, hlast⟩ := ih rfl
        exact ⟨above, left, .enter (isName_of_fits hfits) (by simp [hentry]) hfront, hlast⟩
  | @file links here step content executable hfits hentry =>
      rcases List.append_eq_cons_iff.mp hpath with ⟨rfl, rfl⟩ | ⟨rest, rfl, hnil⟩
      · exact ⟨here, links, .arrive, .file hfits hentry⟩
      · exact absurd (List.append_eq_nil_iff.mp hnil.symm).2 hback
  | @stop links here step target hfits hlast hentry =>
      rcases List.append_eq_cons_iff.mp hpath with ⟨rfl, rfl⟩ | ⟨rest, rfl, hnil⟩
      · exact ⟨here, links, .arrive, .stop hfits hlast hentry⟩
      · exact absurd (List.append_eq_nil_iff.mp hnil.symm).2 hback
  | follow hfits hgo hentry hrest ih =>
      rcases List.append_eq_cons_iff.mp hpath with ⟨rfl, rfl⟩ | ⟨rest, rfl, rfl⟩
      · exact ⟨_, _, .arrive, .follow hfits hgo hentry hrest⟩
      · obtain ⟨above, left, hfront, hlast⟩ := ih (List.append_assoc _ _ _)
        exact ⟨above, left, .follow (isName_of_fits hfits) hentry hfront, hlast⟩

theorem Walks.ne_link (h : Walks fs mode links here path spot) (hfree : fs.LinkFree here)
    (hclimb : ['.', '.'] ∉ path) (target : Text) : spot ≠ .present spot.place (.link target) := by
  induction h with
  | arrive | free | file => simp
  | stay _ ih => exact ih hfree fun hmem => hclimb (List.mem_cons_of_mem _ hmem)
  | climb => exact absurd List.mem_cons_self hclimb
  | enter _ _ _ ih =>
      exact ih (hfree.below (List.prefix_append _ _)) fun hmem =>
        hclimb (List.mem_cons_of_mem _ hmem)
  | stop _ _ hentry => exact absurd hentry (hfree _ _ (List.prefix_append _ _))
  | follow _ _ hentry => exact absurd hentry (hfree _ _ (List.prefix_append _ _))

theorem Walks.ne_link_of_followLast (h : Walks fs mode links here path spot)
    (hlast : mode.followLast = true) (target : Text) :
    spot ≠ .present spot.place (.link target) := by
  induction h with
  | arrive | free | file => simp
  | stay _ ih | climb _ ih | enter _ _ _ ih | follow _ _ _ _ ih => exact ih
  | stop _ hstop => exact absurd (hstop.symm.trans hlast) Bool.false_ne_true

theorem filter_pieces (path : Text) :
    (Path.pieces path).filter (· ≠ ['.']) = Path.course path := by
  rw [Path.pieces, List.filter_filter, Path.course]
  refine List.filter_congr fun piece _ => ?_
  by_cases hempty : piece = [] <;> by_cases hdot : piece = ['.'] <;> simp [Path.isIdle, hempty, hdot]

theorem filter_steps (path : Text) : (steps path).filter (· ≠ ['.']) = Path.course path := by
  rw [Path.steps_eq, List.filter_append, filter_pieces]
  split <;> simp

theorem isName_of_mem_course {path piece : Text} (h : piece ∈ Path.course path)
    (hparent : piece ≠ ['.', '.']) : isName piece := by
  have hcurrent : piece ≠ ['.'] := by
    rintro rfl
    cases (List.mem_filter.mp h).2
  simpa [isName] using ⟨hcurrent, hparent⟩

theorem Denotes.unique {path : Text} (h : fs.Denotes path place) (hother : fs.Denotes path other) :
    place = other :=
  Resolves.unique h hother

theorem Denotes.of_sameLinks {path : Text} (h : fs.Denotes path place) (hlinks : fs.SameLinks fs')
    (hdirectory : fs'.workingDirectory = fs.workingDirectory) : fs'.Denotes path place := by
  rw [Denotes, hdirectory]
  exact Resolves.of_sameLinks h hlinks

theorem denotes_iff {path : Text} :
    fs.Denotes path place ↔ fs.Resolves (startOf fs.workingDirectory path) (steps path) place := by
  have hcourse : (Path.course path).filter (· ≠ ['.']) = Path.course path := by
    rw [← filter_steps, List.filter_filter]
    simp
  constructor
  · exact fun h => h.of_filter_eq (by rw [hcourse, filter_steps])
  · exact fun h => h.of_filter_eq (by rw [hcourse, filter_steps])

theorem isAbsolute_dropEndSlashes (path : Text) :
    Path.isAbsolute (Change.dropEndSlashes path) = Path.isAbsolute path := by
  obtain ⟨n, hpath⟩ := Path.exists_eq_append_slashes path
  unfold Change.dropEndSlashes
  cases hkept : path.reverse.dropWhile (· == '/') with
  | nil => cases path <;> rfl
  | cons last before =>
      rw [hkept] at hpath
      obtain ⟨first, rest, hreverse⟩ :=
        List.exists_cons_of_ne_nil (l := (last :: before).reverse) (by simp)
      simp only [hpath, hreverse]
      rfl

theorem course_dropEndSlashes (path : Text) :
    Path.course (Change.dropEndSlashes path) = Path.course path := by
  obtain ⟨more, hsteps, hmore⟩ := Path.steps_dropEndSlashes path
  rw [← filter_steps path, hsteps, List.filter_append, filter_steps]
  rcases hmore with rfl | rfl <;> simp

theorem denotes_dropEndSlashes {path : Text} :
    fs.Denotes (Change.dropEndSlashes path) place ↔ fs.Denotes path place := by
  rw [Denotes, Denotes, course_dropEndSlashes, startOf, startOf, isAbsolute_dropEndSlashes]

theorem LeadsTo.denotes {path : Text} (h : fs.LeadsTo mode path spot)
    (hspot : ∀ target, spot ≠ .present spot.place (.link target)) : fs.Denotes path spot.place :=
  denotes_iff.mpr (h.resolves hspot)

theorem denotes_of_status {path : Text} {entry : Entry}
    (h : fs.status true path = .ok (place, entry)) : fs.Denotes path place := by
  obtain ⟨-, hleads⟩ := status_eq_ok_iff.mp h
  exact hleads.denotes (hleads.ne_link_of_followLast rfl)

variable {root path : Text} {top : Location} {names : List Text}

theorem startOf_of_descends (h : Path.Descends root path names) (here : Location) :
    startOf here path = startOf here root := by
  rw [startOf, startOf, h.absolute]

theorem isName_of_descends (h : Path.Descends root path names) : ∀ step ∈ names, isName step := by
  intro step hmem
  have hcourse : step ∈ Path.course path := by
    rw [h.course]
    exact List.mem_append_right _ hmem
  refine isName_of_mem_course hcourse ?_
  rintro rfl
  exact h.parent_not_mem hmem

/-- Without links below the root, a path below it stands for the location of the same names. -/
theorem Denotes.place_eq (hroot : fs.Denotes root top) (hfree : fs.LinkFree top)
    (hpath : Path.Descends root path names) (h : fs.Denotes path place) : place = top ++ names := by
  rw [Denotes, startOf_of_descends hpath, hpath.course] at h
  obtain ⟨above, hfront, hback⟩ := h.of_append
  obtain rfl := hroot.unique hfront
  exact hback.place_eq hfree (isName_of_descends hpath)

theorem LeadsTo.ne_link (hroot : fs.Denotes root top) (hfree : fs.LinkFree top)
    (hpath : Path.Descends root path names) (hnames : names ≠ []) (h : fs.LeadsTo mode path spot)
    (target : Text) : spot ≠ .present spot.place (.link target) := by
  have hsteps := filter_steps path
  rw [hpath.course, List.filter_eq_append_iff] at hsteps
  obtain ⟨front, back, hsplit, hfront, hback⟩ := hsteps
  rw [LeadsTo, hsplit] at h
  obtain ⟨above, left, habove, hlast⟩ := h.of_append (by rintro rfl; exact hnames hback.symm)
  have hroot' : fs.Resolves (startOf fs.workingDirectory path) front top := by
    rw [startOf_of_descends hpath]
    refine Resolves.of_filter_eq hroot ?_
    rw [hfront, ← filter_steps root, List.filter_filter]
    simp
  obtain rfl := hroot'.unique habove
  refine hlast.ne_link hfree (fun hclimb => ?_) target
  refine hpath.parent_not_mem ?_
  rw [← hback]
  exact List.mem_filter.mpr ⟨hclimb, by decide⟩

theorem LeadsTo.place_eq (hroot : fs.Denotes root top) (hfree : fs.LinkFree top)
    (hpath : Path.Descends root path names) (hnames : names ≠ []) (h : fs.LeadsTo mode path spot) :
    spot.place = top ++ names :=
  hroot.place_eq hfree hpath (h.denotes (h.ne_link hroot hfree hpath hnames))

end FileSystem

end TemplateSuite
