import TemplateSuite.Proofs.FileSystem.Entries
import TemplateSuite.Proofs.FileSystem.Walk

namespace TemplateSuite.FileSystem

/-- The places that a walk looks up, in order, when it follows every link. -/
def placesOnWay (fs : FileSystem) (links : Nat) (here : Location) (path : List Text) :
    List Location :=
  match path with
  | [] => []
  | step :: rest =>
    if step = ['.'] then placesOnWay fs links here rest
    else if step = ['.', '.'] then placesOnWay fs links here.dropLast rest
    else
      (here ++ [step]) ::
        match fs.entryAt (here ++ [step]) with
        | some .directory => placesOnWay fs links (here ++ [step]) rest
        | some (.link target) =>
          match links with
          | 0 => []
          | fewer + 1 => placesOnWay fs fewer (startOf here target) (steps target ++ rest)
        | _ => []
termination_by (links, path.length)

/-- The places on the way that a path leads. -/
def route (fs : FileSystem) (path : Text) : List Location :=
  fs.placesOnWay maxLinks (startOf fs.workingDirectory path) (steps path)

/-- The directories and links on the way that the path led are there later. -/
def KeepsWay (fs fs' : FileSystem) (path : Text) : Prop :=
  ∀ passed ∈ fs.route path, ∀ entry ∈ fs.entryAt passed, entry.isFile = false →
    fs'.entryAt passed = some entry

variable {fs fs' : FileSystem} {mode : WalkMode} {links : Nat} {here place above : Location}
  {path : List Text} {spot : Spot} {step : Text} {rest : List Text}

theorem placesOnWay_stay :
    fs.placesOnWay links here (['.'] :: rest) = fs.placesOnWay links here rest := by
  rw [placesOnWay, if_pos rfl]

theorem placesOnWay_climb :
    fs.placesOnWay links here (['.', '.'] :: rest) = fs.placesOnWay links here.dropLast rest := by
  rw [placesOnWay, if_neg (by decide), if_pos rfl]

theorem placesOnWay_enter (h : Fits mode here step)
    (hentry : fs.entryAt (here ++ [step]) = some .directory) :
    fs.placesOnWay links here (step :: rest) =
      (here ++ [step]) :: fs.placesOnWay links (here ++ [step]) rest := by
  rw [placesOnWay, if_neg h.ne_current, if_neg h.ne_parent, hentry]

theorem placesOnWay_follow {target : Text} (h : Fits mode here step)
    (hentry : fs.entryAt (here ++ [step]) = some (.link target)) :
    fs.placesOnWay (links + 1) here (step :: rest) =
      (here ++ [step]) :: fs.placesOnWay links (startOf here target) (steps target ++ rest) := by
  rw [placesOnWay, if_neg h.ne_current, if_neg h.ne_parent, hentry]

/-- A walk that ends at a file, or where one can be made, ends at a file that is there later, if the
directories and links on its way are there still. -/
theorem Walks.to_file {content : Content} {executable : Bool} (h : Walks fs mode links here path spot)
    (hspot : spot = .vacant place ∨ ∃ old mark, spot = .present place (.file old mark))
    (hway : ∀ passed ∈ fs.placesOnWay links here path, ∀ entry ∈ fs.entryAt passed,
      entry.isFile = false → fs'.entryAt passed = some entry)
    (hplace : fs'.entryAt place = some (.file content executable)) :
    Walks fs' mode links here path (.present place (.file content executable)) := by
  induction h with
  | arrive => simp at hspot
  | stay _ ih =>
      rw [placesOnWay_stay] at hway
      exact .stay (ih hspot hway)
  | climb _ ih =>
      rw [placesOnWay_climb] at hway
      exact .climb (ih hspot hway)
  | free hfits hentry =>
      obtain rfl : _ = place := by simpa using hspot
      exact .file hfits hplace
  | enter hfits hentry _ ih =>
      rw [placesOnWay_enter hfits hentry] at hway
      refine .enter hfits (hway _ List.mem_cons_self _ hentry rfl) (ih hspot ?_)
      exact fun passed hmem => hway passed (List.mem_cons_of_mem _ hmem)
  | file hfits hentry =>
      obtain rfl : _ = place := by simpa using hspot
      exact .file hfits hplace
  | stop hfits hlast hentry => simp at hspot
  | follow hfits hgo hentry _ ih =>
      rw [placesOnWay_follow hfits hentry] at hway
      refine .follow hfits hgo (hway _ List.mem_cons_self _ hentry rfl) (ih hspot ?_)
      exact fun passed hmem => hway passed (List.mem_cons_of_mem _ hmem)

theorem Walks.of_extends {entry : Entry} (h : Walks fs mode links here path (.present place entry))
    (hextends : fs.Extends fs') : Walks fs' mode links here path (.present place entry) := by
  generalize hspot : Spot.present place entry = spot at h
  induction h with
  | arrive =>
      cases hspot
      exact .arrive
  | stay _ ih => exact .stay (ih hspot)
  | climb _ ih => exact .climb (ih hspot)
  | free => cases hspot
  | enter hfits hentry _ ih => exact .enter hfits (hextends.entries hentry) (ih hspot)
  | file hfits hentry =>
      cases hspot
      exact .file hfits (hextends.entries hentry)
  | stop hfits hlast hentry =>
      cases hspot
      exact .stop hfits hlast (hextends.entries hentry)
  | follow hfits hgo hentry _ ih => exact .follow hfits hgo (hextends.entries hentry) (ih hspot)

theorem walk_name_congr (hcurrent : step ≠ ['.']) (hparent : step ≠ ['.', '.'])
    (hentry : fs'.entryAt (here ++ [step]) = fs.entryAt (here ++ [step]))
    (henter : fs.entryAt (here ++ [step]) = some .directory →
      fs'.walk mode links (here ++ [step]) rest = fs.walk mode links (here ++ [step]) rest)
    (hfollow : ∀ target fewer, fs.entryAt (here ++ [step]) = some (.link target) →
      links = fewer + 1 → fs'.walk mode fewer (startOf here target) (steps target ++ rest) =
        fs.walk mode fewer (startOf here target) (steps target ++ rest)) :
    fs'.walk mode links here (step :: rest) = fs.walk mode links here (step :: rest) := by
  by_cases hfits : Fits mode here step
  · rw [walk_cons_of_fits hfits, walk_cons_of_fits hfits, hentry]
    rcases hfound : fs.entryAt (here ++ [step]) with _ | _ | _ | target
    · rfl
    · exact henter hfound
    · rfl
    · dsimp only
      split
      · rfl
      · split
        · rfl
        · exact hfollow target (links - 1) hfound (by omega)
  · rw [walk_cons_of_not_fits hcurrent hparent hfits, walk_cons_of_not_fits hcurrent hparent hfits]

/-- A walk ends in the same way, be it with an error, where the entries on its way are the same. -/
theorem walk_congr
    (h : ∀ passed ∈ fs.placesOnWay links here path, fs'.entryAt passed = fs.entryAt passed) :
    fs'.walk mode links here path = fs.walk mode links here path := by
  fun_induction placesOnWay fs links here path with
  | case1 => rw [walk, walk]
  | case2 links here rest ih => rw [walk_stay, walk_stay, ih h]
  | case3 links here rest hcurrent ih => rw [walk_climb, walk_climb, ih h]
  | case4 links here step rest hcurrent hparent ihEnter ihFollow =>
      obtain ⟨hentry, hlater⟩ := List.forall_mem_cons.mp h
      refine walk_name_congr hcurrent hparent hentry (fun hfound => ?_) fun target fewer hfound => ?_
      · rw [hfound] at hlater
        exact ihEnter hlater
      · rintro rfl
        rw [hfound] at hlater
        exact ihFollow target hlater

/-- Both have the same entries on the way that the path leads in the first one. -/
structure SameOnRoute (fs fs' : FileSystem) (path : Text) : Prop where
  entryAt_eq : ∀ passed ∈ fs.route path, fs'.entryAt passed = fs.entryAt passed
  workingDirectory : fs'.workingDirectory = fs.workingDirectory

namespace SameOnRoute

variable {path : Text}

theorem refl (fs : FileSystem) (path : Text) : SameOnRoute fs fs path :=
  ⟨fun _ _ => rfl, rfl⟩

theorem walkFrom_eq (h : SameOnRoute fs fs' path) (mode : WalkMode) :
    fs'.walkFrom mode path (steps path) = fs.walkFrom mode path (steps path) := by
  rw [walkFrom, walkFrom, h.workingDirectory]
  exact walk_congr h.entryAt_eq

theorem find_eq (h : SameOnRoute fs fs' path) (followLast : Bool) :
    fs'.find followLast path = fs.find followLast path := by
  rw [find, find, h.walkFrom_eq]

theorem status_eq (h : SameOnRoute fs fs' path) (followLast : Bool) :
    fs'.status followLast path = fs.status followLast path := by
  rw [status, status, h.find_eq]

theorem canonicalPath_eq (h : SameOnRoute fs fs' path) :
    fs'.canonicalPath path = fs.canonicalPath path := by
  rw [canonicalPath, canonicalPath, h.walkFrom_eq]

theorem readText_eq (h : SameOnRoute fs fs' path) : fs'.readText path = fs.readText path := by
  rw [readText, readText, h.status_eq]

theorem isFile_eq (h : SameOnRoute fs fs' path) : fs'.isFile path = fs.isFile path := by
  rw [isFile, isFile, h.status_eq]

end SameOnRoute

/-- A step that is a name. -/
def isName (step : Text) : Bool :=
  step ≠ ['.'] ∧ step ≠ ['.', '.']

theorem Walks.exists_above_vacant (h : Walks fs mode links here path (.vacant place))
    (hhere : fs.entryAt here = some .directory ∨ 1 < path.countP isName) :
    ∃ above name, place = above ++ [name] ∧ fs.entryAt above = some .directory := by
  generalize hspot : Spot.vacant place = spot at h
  induction h with
  | arrive => cases hspot
  | stay _ ih => exact ih (by simpa [isName] using hhere) hspot
  | climb _ ih =>
      refine ih ?_ hspot
      rcases hhere with hdir | hnames
      · exact .inl (entryAt_dropLast hdir)
      · exact .inr (by simpa [isName] using hnames)
  | @free links here step hfits hentry =>
      cases hspot
      rcases hhere with hdir | hnames
      · exact ⟨here, step, rfl, hdir⟩
      · have hone : [step].countP isName ≤ 1 := List.countP_le_length
        omega
  | enter hfits hentry _ ih => exact ih (.inl hentry) hspot
  | file => cases hspot
  | stop => cases hspot
  | @follow links here step target rest spot hfits hgo hentry _ ih =>
      refine ih (.inl ?_) hspot
      unfold startOf
      split
      · exact entryAt_root fs
      · exact entryAt_above hentry

theorem Walks.exists_last_name (h : Walks fs mode links here path (.vacant place))
    (hmode : mode.followLast = false) : ∃ name, path.getLast? = some name ∧ isName name := by
  have hcons : ∀ {step : Text} {rest : List Text},
      (∃ name, rest.getLast? = some name ∧ isName name) →
        ∃ name, (step :: rest).getLast? = some name ∧ isName name := by
    rintro step rest ⟨name, hlast, hname⟩
    refine ⟨name, ?_, hname⟩
    rw [List.getLast?_cons, hlast]
    rfl
  generalize hspot : Spot.vacant place = spot at h
  induction h with
  | arrive => cases hspot
  | stay _ ih | climb _ ih | enter _ _ _ ih => exact hcons (ih hspot)
  | @free links here step hfits =>
      exact ⟨step, rfl, by simpa [isName] using ⟨hfits.ne_current, hfits.ne_parent⟩⟩
  | file | stop => cases hspot
  | @follow links here step target rest spot hfits hgo hentry _ ih =>
      obtain ⟨name, hlast, hname⟩ := ih hspot
      have hrest : rest ≠ [] := fun hnil => hgo ⟨hnil, hmode⟩
      rw [List.getLast?_append, List.getLast?_eq_some_getLast hrest, Option.some_or] at hlast
      exact hcons ⟨name, (List.getLast?_eq_some_getLast hrest).trans hlast, hname⟩

theorem Walks.walk_append (h : Walks fs { followLast := true } links here path
    (.present above .directory)) (followLast : Bool) {more : List Text} (hmore : more ≠ []) :
    ∃ left, fs.walk { followLast } links here (path ++ more) =
      fs.walk { followLast } left above more := by
  generalize hspot : Spot.present above .directory = spot at h
  induction h with
  | @arrive links here =>
      cases hspot
      exact ⟨links, rfl⟩
  | stay _ ih =>
      rw [List.cons_append, walk_stay]
      exact ih hspot
  | climb _ ih =>
      rw [List.cons_append, walk_climb]
      exact ih hspot
  | free => cases hspot
  | @enter links here step rest spot hfits hentry _ ih =>
      have hfits' : Fits { followLast } here step := hfits.of_mode id
      rw [List.cons_append, walk_cons_of_fits hfits', hentry]
      exact ih hspot
  | file => cases hspot
  | stop => cases hspot
  | @follow links here step target rest spot hfits hgo hentry _ ih =>
      have hfits' : Fits { followLast } here step := hfits.of_mode id
      have hgo' : ¬ (rest ++ more = [] ∧ followLast = false) := by simp [hmore]
      obtain ⟨left, hleft⟩ := ih hspot
      refine ⟨left, ?_⟩
      rw [List.cons_append, walk_cons_of_fits hfits', hentry, ← hleft, List.append_assoc]
      exact if_neg hgo'

end TemplateSuite.FileSystem
