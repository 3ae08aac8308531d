import Mathlib.Logic.Function.Iterate
import TemplateSuite.Proofs.FileSystem.RegularFiles
import TemplateSuite.Proofs.Generation.IncludeChain

/-!
The recursion of includes. Where no section changes the files, every template that is entered is a
regular file that is not open yet. So templates cannot be open inside each other more often than there
are regular files, and however far the recursion is unrolled beyond that, it does the same.
-/

namespace TemplateSuite

open StateAction Processing

/-- The open templates after an event. -/
def Event.openAfter (opened : List Text) : Event → List Text
  | .enteringTemplate file => file :: opened
  | .leavingTemplate _ => opened.tail
  | _ => opened

/-- The open templates after some events. -/
def openAfter (opened : List Text) (events : List Event) : List Text :=
  events.foldl Event.openAfter opened

theorem Event.openAfter_of_template?_none {event : Event} (h : event.template? = none)
    (opened : List Text) : event.openAfter opened = opened := by
  cases event <;> first | rfl | cases h

theorem prefix_or_of_prefix_append_cons {α : Type} {front inner rest : List α} {x : α}
    (h : front <+: inner ++ x :: rest) :
    front <+: inner ∨ ∃ more, front = inner ++ x :: more ∧ more <+: rest := by
  obtain ⟨later, hlater⟩ := h
  rcases List.append_eq_append_iff.mp hlater with ⟨left, hleft, -⟩ | ⟨left, rfl, hleft⟩
  · exact .inl ⟨left, hleft.symm⟩
  · cases left with
    | nil => exact .inl ⟨[], by simp⟩
    | cons y more =>
        obtain ⟨rfl, hmore⟩ := List.cons_eq_cons.mp hleft
        exact .inr ⟨more, rfl, later, hmore.symm⟩

namespace Visits

variable {opened : List Text} {events moment : List Event}

theorem openAfter_eq (h : Visits opened events) : openAfter opened events = opened := by
  induction h with
  | nil => rfl
  | skip hevent _ ih =>
      rw [openAfter, List.foldl_cons, Event.openAfter_of_template?_none hevent]
      exact ih
  | visit _ _ _ ihInner ihRest =>
      rw [openAfter, List.foldl_cons, List.foldl_append, List.foldl_cons]
      exact (congrArg (fun stack => openAfter stack.tail _) ihInner).trans ihRest

/-- No template is open twice at any moment, and what is open has been entered. -/
theorem nodup_openAfter (h : Visits opened events) (hnodup : opened.Nodup)
    (hmoment : moment <+: events) :
    (openAfter opened moment).Nodup ∧
      ∀ file ∈ openAfter opened moment, file ∈ opened ∨ .enteringTemplate file ∈ moment := by
  induction h generalizing moment with
  | nil =>
      rw [List.prefix_nil.mp hmoment]
      exact ⟨hnodup, fun file => .inl⟩
  | skip hevent _ ih =>
      rcases List.prefix_cons_iff.mp hmoment with rfl | ⟨earlier, rfl, hearlier⟩
      · exact ⟨hnodup, fun file => .inl⟩
      · obtain ⟨hdistinct, hentered⟩ := ih hnodup hearlier
        rw [openAfter, List.foldl_cons, Event.openAfter_of_template?_none hevent]
        exact ⟨hdistinct, fun file hfile => (hentered file hfile).imp_right (List.mem_cons_of_mem _)⟩
  | @visit opened entered inner rest hentered hinner _ ihInner ihRest =>
      rcases List.prefix_cons_iff.mp hmoment with rfl | ⟨earlier, rfl, hearlier⟩
      · exact ⟨hnodup, fun file => .inl⟩
      -- the moment is inside the visit or after it
      · rcases prefix_or_of_prefix_append_cons hearlier with hearlier | ⟨more, rfl, hmore⟩
        · obtain ⟨hdistinct, hopen⟩ :=
            ihInner (List.nodup_cons.mpr ⟨hentered, hnodup⟩) hearlier
          refine ⟨hdistinct, fun file hfile => ?_⟩
          rcases hopen file hfile with hmem | hmem
          · rcases List.mem_cons.mp hmem with rfl | hmem
            · exact .inr List.mem_cons_self
            · exact .inl hmem
          · exact .inr (List.mem_cons_of_mem _ hmem)
        · obtain ⟨hdistinct, hopen⟩ := ihRest hnodup hmore
          have hafter : openAfter opened
              (.enteringTemplate entered :: (inner ++ .leavingTemplate entered :: more)) =
                openAfter opened more := by
            rw [openAfter, List.foldl_cons, List.foldl_append, List.foldl_cons]
            exact congrArg (fun stack => openAfter stack.tail more) hinner.openAfter_eq
          rw [hafter]
          refine ⟨hdistinct, fun file hfile => (hopen file hfile).imp_right fun hmem => ?_⟩
          exact List.mem_cons_of_mem _ (List.mem_append_right _ (List.mem_cons_of_mem _ hmem))

end Visits

/-- The table has no tag for directories. -/
def Setup.HasNoDirectories (setup : Setup) : Prop :=
  ∀ tag, setup.table.get? tag ≠ some .directory

/-- The files are as before, and the templates that were entered are files that can be opened. -/
structure OnlyReads (before after : Progress) : Prop where
  files : after.files = before.files
  events : ∃ new, after.events = before.events ++ new ∧
    ∀ file, .enteringTemplate file ∈ new → before.files.CanOpen file

namespace OnlyReads

variable {p q r : Progress} {setup : Setup}

theorem refl (p : Progress) : OnlyReads p p where
  files := rfl
  events := ⟨[], (List.append_nil _).symm, nofun⟩

theorem trans (hfirst : OnlyReads p q) (hsecond : OnlyReads q r) : OnlyReads p r where
  files := hsecond.files.trans hfirst.files
  events := by
    obtain ⟨front, hfront, hentered⟩ := hfirst.events
    obtain ⟨back, hback, hentered'⟩ := hsecond.events
    rw [hfirst.files] at hentered'
    refine ⟨front ++ back, by rw [hback, hfront, List.append_assoc], fun file hfile => ?_⟩
    exact (List.mem_append.mp hfile).elim (hentered file) (hentered' file)

def contract : Contract where
  done := OnlyReads
  stopped := OnlyReads
  refl := refl
  trans := trans
  stopped_refl := refl
  stopped_after := trans

theorem of_remark {event : Event} (h : event.isRemark) (p : Progress) :
    OnlyReads p { p with events := p.events ++ [event] } where
  files := rfl
  events := by
    refine ⟨[event], rfl, fun file hfile => ?_⟩
    rw [← List.mem_singleton.mp hfile] at h
    cases h

theorem leaving {after : Progress} {file : Text} (hfile : p.files.CanOpen file)
    (h : OnlyReads (p.entering file) after) : OnlyReads p (after.leaving file) where
  files := h.files
  events := by
    obtain ⟨new, hnew, hentered⟩ := h.events
    refine ⟨.enteringTemplate file :: (new ++ [.leavingTemplate file]), ?_, fun other hother => ?_⟩
    · simp only [Progress.leaving, hnew, Progress.entering, List.append_assoc, List.cons_append,
        List.nil_append]
    · rcases List.mem_cons.mp hother with heq | hmem
      · cases heq
        exact hfile
      · rcases List.mem_append.mp hmem with hmem | hmem
        · exact hentered other hmem
        · cases List.mem_singleton.mp hmem

theorem of_holds {α : Type} {x : Processing α} (h : contract.Holds x) (p : Progress) :
    OnlyReads p (x p).2 :=
  (h p).done_or_stopped.elim id id

theorem handles (h : setup.HasNoDirectories) : contract.Handles setup where
  remark _ _ hremark := of_remark hremark _
  definition s _ := by
    refine Contract.holds_defineMacro (fun event p hremark => ?_) (fun m p => ?_) s
    · exact of_remark hremark p
    · exact ⟨rfl, (refl p).events⟩
  directory s hdirectory := absurd hdirectory (h s.tag)
  visit _ _ hfile _ htext haction :=
    Contract.holdsAt_whileOpen (haction _) (fun _ => leaving ⟨_, _, hfile, htext⟩)
      fun _ => leaving ⟨_, _, hfile, htext⟩

end OnlyReads

/-- Where these files are there and these templates are open, both do the same. -/
def AgreeOn {α : Type} (fs : FileSystem) (opened : List Text) (x y : Processing α) : Prop :=
  ∀ p : Progress, p.files = fs → p.opened = opened → x p = y p

namespace AgreeOn

variable {fs : FileSystem} {opened : List Text} {setup : Setup} {enter enter' : Text → Processing Unit}
  {α β : Type}

theorem refl (x : Processing α) : AgreeOn fs opened x x :=
  fun _ _ _ => rfl

theorem bind {x : Processing α} {f g : α → Processing β}
    (hkept : ∀ p a q, x p = (.ok a, q) → q.files = p.files ∧ q.opened = p.opened)
    (h : ∀ a, AgreeOn fs opened (f a) (g a)) : AgreeOn fs opened (x >>= f) (x >>= g) := by
  intro p hfiles hopened
  rcases hrun : x p with ⟨e | a, q⟩
  · rw [bind_of_error hrun, bind_of_error hrun]
  · obtain ⟨hfiles', hopened'⟩ := hkept p a q hrun
    rw [bind_of_ok hrun, bind_of_ok hrun]
    exact h a q (hfiles'.trans hfiles) (hopened'.trans hopened)

theorem ofExcept_bind {ε : Type} {wrap : ε → TemplateError} {result : Except ε α}
    {f g : α → Processing β} (h : ∀ a, AgreeOn fs opened (f a) (g a)) :
    AgreeOn fs opened (ofExcept wrap result >>= f) (ofExcept wrap result >>= g) := by
  refine bind (fun p a q hrun => ?_) h
  cases result with
  | ok found =>
      cases hrun
      exact ⟨rfl, rfl⟩
  | error e => cases hrun

theorem note_bind {event : Event} {f g : Unit → Processing β}
    (h : AgreeOn fs opened (f ()) (g ())) :
    AgreeOn fs opened (note event >>= f) (note event >>= g) := by
  refine bind (fun p a q hrun => ?_) fun _ => h
  cases hrun
  exact ⟨rfl, rfl⟩

theorem get_bind {f g : Progress → Processing β}
    (h : ∀ p : Progress, p.files = fs → p.opened = opened → f p p = g p p) :
    AgreeOn fs opened (get >>= f) (get >>= g) := by
  intro p hfiles hopened
  rw [get_bind_apply, get_bind_apply]
  exact h p hfiles hopened

theorem handleSection (h : ∀ path, AgreeOn fs opened (enter path) (enter' path)) (s : Section) :
    AgreeOn fs opened (handleSection setup enter s) (handleSection setup enter' s) := by
  unfold Processing.handleSection
  cases setup.table.get? s.tag with
  | none => exact refl _
  | some handler =>
      refine note_bind ?_
      cases handler with
      | definition | directory | comment => exact refl _
      | inclusion =>
          simp only [includeTemplate_eq]
          split
          · exact refl _
          · refine get_bind fun p hfiles hopened => ?_
            exact ofExcept_bind (fun path => note_bind (h path)) p hfiles hopened

theorem handleItem (h : ∀ path, AgreeOn fs opened (enter path) (enter' path)) (item : Item) :
    AgreeOn fs opened (handleItem setup enter item) (handleItem setup enter' item) := by
  cases item with
  | text line content => exact refl _
  | block s => exact handleSection h s

theorem forM_handleItem (h : ∀ path, AgreeOn fs opened (enter path) (enter' path))
    (hkept : ∀ item p a q, Processing.handleItem setup enter' item p = (.ok a, q) →
      q.files = p.files ∧ q.opened = p.opened) (items : List Item) :
    AgreeOn fs opened (items.forM (Processing.handleItem setup enter))
      (items.forM (Processing.handleItem setup enter')) := by
  induction items with
  | nil => exact refl _
  | cons item rest ih =>
      intro p hfiles hopened
      have hitem : Processing.handleItem setup enter item p =
          Processing.handleItem setup enter' item p := handleItem h item p hfiles hopened
      rw [forM_cons, forM_cons, ← bind (hkept item) (fun _ => ih) p hfiles hopened, bind_apply,
        bind_apply, hitem]

theorem handleText (h : ∀ path, AgreeOn fs opened (enter path) (enter' path))
    (hkept : ∀ item p a q, Processing.handleItem setup enter' item p = (.ok a, q) →
      q.files = p.files ∧ q.opened = p.opened) (text : Text) :
    AgreeOn fs opened (handleText setup enter text) (handleText setup enter' text) :=
  ofExcept_bind fun _ => ofExcept_bind fun items => forM_handleItem h hkept items

/-- A template is only entered if it is a file that can be opened and is not open yet. -/
theorem openTemplate
    (h : ∀ file, fs.CanOpen file → file ∉ opened → ∀ path,
      AgreeOn fs (file :: opened) (enter path) (enter' path))
    (hkept : ∀ item p a q, Processing.handleItem setup enter' item p = (.ok a, q) →
      q.files = p.files ∧ q.opened = p.opened) (path : Text) :
    AgreeOn fs opened (openTemplate setup enter path) (openTemplate setup enter' path) := by
  intro p hfiles hopened
  rw [openTemplate_eq, openTemplate_eq]
  cases hfile : p.files.canonicalPath path with
  | error e => rw [bind_of_error (observe_of_error hfile _ _), bind_of_error (observe_of_error hfile _ _)]
  | ok file =>
      rw [bind_of_ok (observe_of_ok hfile _ _), bind_of_ok (observe_of_ok hfile _ _),
        get_bind_apply, get_bind_apply]
      by_cases hopen : file ∈ p.opened
      · rw [if_pos hopen, if_pos hopen]
      · rw [if_neg hopen, if_neg hopen]
        cases htext : p.files.readText file with
        | error e =>
            rw [bind_of_error (observe_of_error htext _ _),
              bind_of_error (observe_of_error htext _ _)]
        | ok text =>
            rw [bind_of_ok (observe_of_ok htext _ _), bind_of_ok (observe_of_ok htext _ _),
              whileOpen_apply, whileOpen_apply]
            subst hfiles hopened
            rw [handleText (h file ⟨path, text, hfile, htext⟩ hopen) hkept text (p.entering file)
              rfl rfl]

end AgreeOn

variable {fs : FileSystem} {setup : Setup} {capacity : Nat}

/-- Distinct files that can be opened are not more than this number. -/
def FileSystem.OpensAtMost (fs : FileSystem) (capacity : Nat) : Prop :=
  ∀ files : List Text, files.Nodup → (∀ file ∈ files, fs.CanOpen file) → files.length ≤ capacity

theorem kept_of_handleItem (hsetup : setup.HasNoDirectories) (room : Nat) (item : Item)
    (p : Progress) (a : Unit) (q : Progress)
    (hrun : handleItem setup (processFileWithin setup room) item p = (.ok a, q)) :
    q.files = p.files ∧ q.opened = p.opened := by
  have hreads := OnlyReads.handles hsetup
  have hcloses := ClosesAgain.admits setup
  exact ⟨((hreads.handleItem (hreads.processFileWithin room) item p).of_ok hrun).files,
    ((hcloses.handleItem (hcloses.processFileWithin room) item p).of_ok hrun).opened⟩

/-- The recursion can be cut off anywhere beyond what can be open at once. -/
theorem iterate_openTemplate_agrees (hsetup : setup.HasNoDirectories)
    (hcapacity : fs.OpensAtMost capacity) (base : Text → Processing Unit) {levels room : Nat}
    {opened : List Text} (hnodup : opened.Nodup) (hopen : ∀ file ∈ opened, fs.CanOpen file)
    (hlevels : capacity < levels + opened.length) (hroom : capacity < room + opened.length)
    (path : Text) :
    AgreeOn fs opened ((openTemplate setup)^[levels] base path)
      (processFileWithin setup room path) := by
  -- with every level a template is opened that was not open, until no more can be
  have hfull := hcapacity opened hnodup hopen
  induction levels generalizing room opened path with
  | zero => omega
  | succ levels ih =>
      cases room with
      | zero => omega
      | succ room =>
          rw [Function.iterate_succ_apply', processFileWithin]
          refine AgreeOn.openTemplate (fun file hfile hnew path => ?_) (kept_of_handleItem hsetup room)
            path
          have hnodup' : (file :: opened).Nodup := List.nodup_cons.mpr ⟨hnew, hnodup⟩
          have hopen' : ∀ other ∈ file :: opened, fs.CanOpen other :=
            List.forall_mem_cons.mpr ⟨hfile, hopen⟩
          have hlength : (file :: opened).length = opened.length + 1 := List.length_cons
          exact ih hnodup' hopen' (by omega) (by omega) path (hcapacity _ hnodup' hopen')

theorem openLimit_eq : openLimit = 256 ^ (FileSystem.maxPathBytes + 1) := by
  unfold openLimit
  generalize FileSystem.maxPathBytes + 1 = exponent
  rfl

theorem opensAtMost_below_openLimit (fs : FileSystem) : fs.OpensAtMost (openLimit - 1) := by
  intro files hnodup hopen
  have hlength := FileSystem.length_lt_of_canOpen hnodup hopen
  rw [← openLimit_eq] at hlength
  omega

theorem opensAtMost_of_hasWorkingDirectory (h : fs.HasWorkingDirectory) :
    fs.OpensAtMost (min fs.regularFiles.length (openLimit - 1)) := fun files hnodup hopen =>
  Nat.le_min.mpr ⟨FileSystem.length_le_regularFiles hnodup hopen h,
    opensAtMost_below_openLimit fs files hnodup hopen⟩

theorem processFileWithin_eq_iterate (setup : Setup) (room : Nat) :
    processFileWithin setup room = (openTemplate setup)^[room] (processFileWithin setup 0) := by
  induction room with
  | zero => rfl
  | succ room ih =>
      rw [Function.iterate_succ_apply', ← ih]
      funext path
      rw [processFileWithin]

theorem processFileWithin_agrees (hsetup : setup.HasNoDirectories)
    (hcapacity : fs.OpensAtMost capacity) {room : Nat} (hroom : capacity < room) (path : Text) :
    AgreeOn fs [] (processFileWithin setup room path)
      (openTemplate setup (processFileWithin setup room) path) := by
  have hagrees : AgreeOn fs [] ((openTemplate setup)^[room] (processFileWithin setup 0) path)
      (processFileWithin setup (room + 1) path) :=
    iterate_openTemplate_agrees hsetup hcapacity _ .nil nofun hroom (Nat.lt_succ_of_lt hroom) path
  rwa [← processFileWithin_eq_iterate, processFileWithin.eq_2] at hagrees

/-- The limit makes no difference: a template is processed with its includes, and these in the same
way. -/
theorem processFile_agrees_openTemplate (hsetup : setup.HasNoDirectories) (fs : FileSystem)
    (path : Text) :
    AgreeOn fs [] (processFile setup path) (openTemplate setup (processFile setup) path) := by
  have hroom : openLimit - 1 < openLimit := Nat.sub_one_lt (Nat.ne_of_gt openLimit_pos)
  rw [processFile_eq_within]
  exact processFileWithin_agrees hsetup (opensAtMost_below_openLimit fs) hroom path

/-- Beyond as many levels as there are regular files, unrolling makes no difference. -/
theorem iterate_openTemplate_agrees_processFile (hsetup : setup.HasNoDirectories)
    (hhere : fs.HasWorkingDirectory) (base : Text → Processing Unit) {levels : Nat}
    (hlevels : fs.regularFiles.length < levels) (path : Text) :
    AgreeOn fs [] ((openTemplate setup)^[levels] base path) (processFile setup path) := by
  have hroom := openLimit_pos
  rw [processFile_eq_within]
  apply iterate_openTemplate_agrees hsetup (opensAtMost_of_hasWorkingDirectory hhere) base .nil
  · exact nofun
  · rw [List.length_nil]
    omega
  · rw [List.length_nil]
    omega

variable {p : Progress}

theorem length_openAfter_le (hsetup : setup.HasNoDirectories) (hopened : p.opened = [])
    (hhere : p.files.HasWorkingDirectory) (request : Request) :
    ∃ new, (request.process setup p).2.events = p.events ++ new ∧
      (request.process setup p).2.files = p.files ∧
        ∀ moment, moment <+: new → (openAfter [] moment).length ≤ p.files.regularFiles.length := by
  have hreads : OnlyReads p (request.process setup p).2 := by
    have hholds := OnlyReads.handles hsetup
    cases request with
    | file path => exact OnlyReads.of_holds (hholds.processFile path) p
    | text content => exact OnlyReads.of_holds (hholds.processText content) p
  obtain ⟨new, hnew, hentered⟩ := hreads.events
  obtain ⟨visited, hvisited, hvisits⟩ := (Request.process_closesAgain request p).events
  obtain rfl := List.append_cancel_left (hvisited.symm.trans hnew)
  rw [hopened] at hvisits
  refine ⟨visited, hnew, hreads.files, fun moment hmoment => ?_⟩
  obtain ⟨hdistinct, hopen⟩ := hvisits.nodup_openAfter .nil hmoment
  refine FileSystem.length_le_regularFiles hdistinct (fun file hfile => ?_) hhere
  rcases hopen file hfile with hmem | hmem
  · cases hmem
  · exact hentered file (hmoment.subset hmem)

/-- Where no section changes the files, processing ends, whatever includes what. Each template is
processed with those it includes, and these are processed in the same way; unrolled to more levels than
there are regular files, this recursion comes to no end of its own, so it does not matter what would be
done there. At no moment are more templates open than there are regular files. -/
theorem open_templates_are_bounded_by_regular_files (hsetup : setup.HasNoDirectories)
    (hopened : p.opened = []) (hhere : p.files.HasWorkingDirectory) :
    (∀ path, processFile setup path p = openTemplate setup (processFile setup) path p) ∧
      (∀ (base : Text → Processing Unit) levels, p.files.regularFiles.length < levels →
        (∀ path, (openTemplate setup)^[levels] base path p = processFile setup path p) ∧
          ∀ text, handleText setup ((openTemplate setup)^[levels] base) text p =
            processText setup text p) ∧
      ∀ request : Request, ∃ new, (request.process setup p).2.events = p.events ++ new ∧
        (request.process setup p).2.files = p.files ∧
          (∀ moment, moment <+: new →
            (openAfter [] moment).length ≤ p.files.regularFiles.length) ∧
          (request.process setup p).2.opened = [] := by
  refine ⟨fun path => processFile_agrees_openTemplate hsetup p.files path p rfl hopened,
    fun base levels hlevels => ?_, fun request => ?_⟩
  · have hagrees := iterate_openTemplate_agrees_processFile hsetup hhere base hlevels
    refine ⟨fun path => hagrees path p rfl hopened, fun text => ?_⟩
    rw [processText]
    refine AgreeOn.handleText hagrees (fun item q a after hrun => ?_) text p rfl hopened
    rw [processFile_eq_within] at hrun
    exact kept_of_handleItem hsetup openLimit item q a after hrun
  · obtain ⟨new, hnew, hfiles, hmoments⟩ := length_openAfter_le hsetup hopened hhere request
    exact ⟨new, hnew, hfiles, hmoments, (Request.process_closesAgain request p).opened.trans hopened⟩

/-- Two templates that include each other. -/
def mutualTemplates : Progress where
  files := {
    root := [("a.tt", .file (.text "@include b.tt @include_\n") false),
      ("b.tt", .file (.text "@include ./a.tt @include_\n") false)]
    workingDirectory := [] }

def includesOnly : Setup where
  outputRoot := "out"
  table := SectionTable.empty.register "include" .inclusion

theorem mutual_templates_are_opened_once :
    (includesOnly.HasNoDirectories ∧ mutualTemplates.opened = [] ∧
      mutualTemplates.files.HasWorkingDirectory) ∧
      (processFile includesOnly "a.tt" mutualTemplates).1 =
        .error (.inTemplate "/a.tt" (.inTemplate "/b.tt" (.includeCycle "/a.tt"))) ∧
      ∀ moment, moment <+: (processFile includesOnly "a.tt" mutualTemplates).2.events →
        (openAfter [] moment).length ≤ 2 := by
  have hsetup : includesOnly.HasNoDirectories := by
    intro tag htag
    have hlookup : includesOnly.table.get? tag = [(("include" : Text), Handler.inclusion)].lookup tag :=
      rfl
    rw [hlookup, List.lookup_cons] at htag
    split at htag
    · cases htag
    · cases htag
  have hhere : mutualTemplates.files.HasWorkingDirectory :=
    ⟨FileSystem.namedHere_of_root rfl, FileSystem.entryAt_root _⟩
  have hcount : mutualTemplates.files.regularFiles.length = 2 := by decide
  obtain ⟨-, hunrolled, hmoments⟩ := open_templates_are_bounded_by_regular_files hsetup rfl hhere
  refine ⟨⟨hsetup, rfl, hhere⟩, ?_, ?_⟩
  · rw [← (hunrolled (processFile includesOnly) 3 (by rw [hcount]; decide)).1 "a.tt"]
    delta openTemplate handleText handleItem handleSection includeTemplate
    cbv
  · obtain ⟨new, hnew, -, hbound, -⟩ := hmoments (.file "a.tt")
    rw [hcount] at hbound
    have hstart : mutualTemplates.events ++ new = new := rfl
    rw [Request.process, hstart] at hnew
    rwa [hnew]

end TemplateSuite
