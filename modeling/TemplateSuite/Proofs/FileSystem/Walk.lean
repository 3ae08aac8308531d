import TemplateSuite.FileSystem.Walk

namespace TemplateSuite.FileSystem

/-- A name that a walk may look up in the directory it has come to. -/
structure Fits (mode : WalkMode) (here : Location) (step : Text) : Prop where
  ne_current : step ≠ ['.']
  ne_parent : step ≠ ['.', '.']
  name_le : Text.byteCount step ≤ maxNameBytes
  place_le : mode.limitPlaces → Text.byteCount (here ++ [step]).toPath ≤ maxPathBytes

/-- The walk of the steps from a directory ends at the spot. -/
inductive Walks (fs : FileSystem) (mode : WalkMode) :
    Nat → Location → List Text → Spot → Prop
  | arrive {links : Nat} {here : Location} : Walks fs mode links here [] (.present here .directory)
  | stay {links : Nat} {here : Location} {rest : List Text} {spot : Spot} :
      Walks fs mode links here rest spot → Walks fs mode links here (['.'] :: rest) spot
  | climb {links : Nat} {here : Location} {rest : List Text} {spot : Spot} :
      Walks fs mode links here.dropLast rest spot →
        Walks fs mode links here (['.', '.'] :: rest) spot
  | free {links : Nat} {here : Location} {step : Text} :
      Fits mode here step → fs.entryAt (here ++ [step]) = none →
        Walks fs mode links here [step] (.vacant (here ++ [step]))
  | enter {links : Nat} {here : Location} {step : Text} {rest : List Text} {spot : Spot} :
      Fits mode here step → fs.entryAt (here ++ [step]) = some .directory →
        Walks fs mode links (here ++ [step]) rest spot →
          Walks fs mode links here (step :: rest) spot
  | file {links : Nat} {here : Location} {step : Text} {content : Content} {executable : Bool} :
      Fits mode here step → fs.entryAt (here ++ [step]) = some (.file content executable) →
        Walks fs mode links here [step] (.present (here ++ [step]) (.file content executable))
  | stop {links : Nat} {here : Location} {step target : Text} :
      Fits mode here step → mode.followLast = false →
        fs.entryAt (here ++ [step]) = some (.link target) →
          Walks fs mode links here [step] (.present (here ++ [step]) (.link target))
  | follow {links : Nat} {here : Location} {step target : Text} {rest : List Text} {spot : Spot} :
      Fits mode here step → ¬ (rest = [] ∧ mode.followLast = false) →
        fs.entryAt (here ++ [step]) = some (.link target) →
          Walks fs mode links (startOf here target) (steps target ++ rest) spot →
            Walks fs mode (links + 1) here (step :: rest) spot

variable {fs : FileSystem} {mode : WalkMode} {links : Nat} {here place : Location}
  {path : List Text} {spot : Spot}

theorem fits_of_not {step : Text} (hcurrent : ¬ step = ['.']) (hparent : ¬ step = ['.', '.'])
    (hname : ¬ maxNameBytes < Text.byteCount step)
    (hplace : ¬ (mode.limitPlaces &&
      maxPathBytes < Text.byteCount (here ++ [step]).toPath) = true) :
    Fits mode here step where
  ne_current := hcurrent
  ne_parent := hparent
  name_le := Nat.le_of_not_lt hname
  place_le := by
    intro hlimit
    simpa [hlimit] using hplace

theorem walk_cons_of_fits {step : Text} (h : Fits mode here step) (rest : List Text) :
    fs.walk mode links here (step :: rest) =
      match fs.entryAt (here ++ [step]) with
      | none => if rest = [] then .ok (.vacant (here ++ [step])) else .error .notFound
      | some .directory => fs.walk mode links (here ++ [step]) rest
      | some (.file content executable) =>
        if rest = [] then .ok (.present (here ++ [step]) (.file content executable))
        else .error .notDirectory
      | some (.link target) =>
        if rest = [] ∧ mode.followLast = false then .ok (.present (here ++ [step]) (.link target))
        else if links = 0 then .error .tooManyLinks
        else fs.walk mode (links - 1) (startOf here target) (steps target ++ rest) := by
  have hplace : ¬ (mode.limitPlaces && maxPathBytes < Text.byteCount (here ++ [step]).toPath) =
      true := by
    simpa using h.place_le
  rw [walk, if_neg h.ne_current, if_neg h.ne_parent, if_neg (Nat.not_lt.mpr h.name_le),
    if_neg hplace]
  rcases fs.entryAt (here ++ [step]) with _ | _ | _ | target
  · rfl
  · rfl
  · rfl
  · cases links <;> rfl

theorem walk_cons_of_not_fits {step : Text} (hcurrent : step ≠ ['.']) (hparent : step ≠ ['.', '.'])
    (h : ¬ Fits mode here step) (rest : List Text) :
    fs.walk mode links here (step :: rest) = .error .nameTooLong := by
  rw [walk, if_neg hcurrent, if_neg hparent]
  split
  · rfl
  · rename_i hname
    split
    · rfl
    · rename_i hplace
      exact absurd (fits_of_not hcurrent hparent hname hplace) h

theorem walk_stay (rest : List Text) :
    fs.walk mode links here (['.'] :: rest) = fs.walk mode links here rest := by
  rw [walk, if_pos rfl]

theorem walk_climb (rest : List Text) :
    fs.walk mode links here (['.', '.'] :: rest) = fs.walk mode links here.dropLast rest := by
  rw [walk, if_neg (by decide), if_pos rfl]

theorem walk_eq_ok_iff :
    fs.walk mode links here path = .ok spot ↔ Walks fs mode links here path spot := by
  constructor
  · intro h
    fun_induction walk fs mode links here path with
    | case1 =>
        cases h
        exact .arrive
    | case2 _ _ _ ih => exact .stay (ih h)
    | case3 _ _ _ _ ih => exact .climb (ih h)
    | case4 | case5 | case7 | case10 | case12 => cases h
    | case6 links here step hcurrent hparent hname hplace hentry =>
        cases h
        exact .free (fits_of_not hcurrent hparent hname hplace) hentry
    | case8 links here step rest hcurrent hparent hname hplace hentry ih =>
        exact .enter (fits_of_not hcurrent hparent hname hplace) hentry (ih h)
    | case9 links here step hcurrent hparent hname hplace content executable hentry =>
        cases h
        exact .file (fits_of_not hcurrent hparent hname hplace) hentry
    | case11 links here step rest hcurrent hparent hname hplace target hentry hstop =>
        cases h
        obtain ⟨rfl, hlast⟩ := hstop
        exact .stop (fits_of_not hcurrent hparent hname hplace) hlast hentry
    | case13 here step rest hcurrent hparent hname hplace target hentry hgo fewer ih =>
        exact .follow (fits_of_not hcurrent hparent hname hplace) hgo hentry (ih h)
  · intro h
    induction h with
    | arrive => rw [walk]
    | stay _ ih => rw [walk_stay, ih]
    | climb _ ih => rw [walk_climb, ih]
    | free hfits hentry =>
        rw [walk_cons_of_fits hfits, hentry]
        rfl
    | enter hfits hentry _ ih =>
        rw [walk_cons_of_fits hfits, hentry]
        exact ih
    | file hfits hentry =>
        rw [walk_cons_of_fits hfits, hentry]
        rfl
    | stop hfits hlast hentry =>
        rw [walk_cons_of_fits hfits, hentry]
        exact if_pos ⟨rfl, hlast⟩
    | follow hfits hgo hentry _ ih =>
        rw [walk_cons_of_fits hfits, hentry]
        exact (if_neg hgo).trans ih

theorem walks_stay_iff {rest : List Text} :
    Walks fs mode links here (['.'] :: rest) spot ↔ Walks fs mode links here rest spot := by
  rw [← walk_eq_ok_iff, ← walk_eq_ok_iff, walk_stay]

theorem Walks.entryAt_vacant (h : Walks fs mode links here path (.vacant place)) :
    fs.entryAt place = none := by
  generalize hspot : Spot.vacant place = spot at h
  induction h with
  | arrive => cases hspot
  | stay _ ih | climb _ ih | enter _ _ _ ih | follow _ _ _ _ ih => exact ih hspot
  | free _ hentry =>
      cases hspot
      exact hentry
  | file | stop => cases hspot

theorem Walks.entryAt_present {entry : Entry}
    (h : Walks fs mode links here path (.present place entry)) (hentry : entry ≠ .directory) :
    fs.entryAt place = some entry := by
  generalize hspot : Spot.present place entry = spot at h
  induction h with
  | arrive =>
      cases hspot
      exact absurd rfl hentry
  | stay _ ih | climb _ ih | enter _ _ _ ih | follow _ _ _ _ ih => exact ih hspot
  | free => cases hspot
  | file _ hfound | stop _ _ hfound =>
      cases hspot
      exact hfound

/-- The path leads to the spot. -/
def LeadsTo (fs : FileSystem) (mode : WalkMode) (path : Text) (spot : Spot) : Prop :=
  Walks fs mode maxLinks (startOf fs.workingDirectory path) (steps path) spot

/-- The location of the file that is written under a path. -/
def destination (fs : FileSystem) (path : Text) : Option Location :=
  match fs.find true path with
  | .ok (.present place _) => some place
  | .ok (.vacant place) => some place
  | .error _ => none

theorem LeadsTo.unique {path : Text} {other : Spot} (h : fs.LeadsTo mode path spot)
    (hother : fs.LeadsTo mode path other) : spot = other :=
  Except.ok.inj ((walk_eq_ok_iff.mpr h).symm.trans (walk_eq_ok_iff.mpr hother))

theorem walkFrom_eq_ok_iff {path : Text} :
    fs.walkFrom mode path (steps path) = .ok spot ↔ fs.LeadsTo mode path spot :=
  walk_eq_ok_iff

theorem find_eq_ok_iff {followLast : Bool} {path : Text} :
    fs.find followLast path = .ok spot ↔
      checkPath path = .ok () ∧ fs.LeadsTo { followLast } path spot := by
  rw [← walkFrom_eq_ok_iff, find]
  cases checkPath path <;> simp [bind, Except.bind]

theorem status_eq_ok_iff {followLast : Bool} {path : Text} {entry : Entry} :
    fs.status followLast path = .ok (place, entry) ↔
      checkPath path = .ok () ∧ fs.LeadsTo { followLast } path (.present place entry) := by
  rw [← find_eq_ok_iff, status]
  cases fs.find followLast path with
  | error e => simp [bind, Except.bind]
  | ok spot => cases spot <;> simp [bind, Except.bind, pure, Except.pure, throw, throwThe,
      MonadExceptOf.throw]

theorem canonicalPath_eq_ok_iff {path file : Text} :
    fs.canonicalPath path = .ok file ↔
      checkText path = .ok () ∧ ∃ place entry, place.toPath = file ∧
        fs.LeadsTo { followLast := true, limitPlaces := true } path (.present place entry) := by
  simp only [← walkFrom_eq_ok_iff, canonicalPath]
  cases checkText path with
  | error e => simp [bind, Except.bind]
  | ok _ =>
      cases fs.walkFrom { followLast := true, limitPlaces := true } path (steps path) with
      | error e => simp [bind, Except.bind]
      | ok spot => cases spot <;> simp [bind, Except.bind, pure, Except.pure, throw, throwThe,
          MonadExceptOf.throw]

theorem Fits.of_mode {mode' : WalkMode} {step : Text} (h : Fits mode here step)
    (hmode : mode'.limitPlaces → mode.limitPlaces) : Fits mode' here step where
  ne_current := h.ne_current
  ne_parent := h.ne_parent
  name_le := h.name_le
  place_le := fun hlimit => h.place_le (hmode hlimit)

theorem Walks.of_limitPlaces (h : Walks fs mode links here path spot) :
    Walks fs { mode with limitPlaces := false } links here path spot := by
  induction h with
  | arrive => exact .arrive
  | stay _ ih => exact .stay ih
  | climb _ ih => exact .climb ih
  | free hfits hentry => exact .free (hfits.of_mode nofun) hentry
  | enter hfits hentry _ ih => exact .enter (hfits.of_mode nofun) hentry ih
  | file hfits hentry => exact .file (hfits.of_mode nofun) hentry
  | stop hfits hlast hentry => exact .stop (hfits.of_mode nofun) hlast hentry
  | follow hfits hgo hentry _ ih => exact .follow (hfits.of_mode nofun) hgo hentry ih

end TemplateSuite.FileSystem
