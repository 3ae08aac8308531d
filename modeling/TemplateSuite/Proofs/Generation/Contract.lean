import TemplateSuite.Generation.Template
import TemplateSuite.Proofs.StateAction

/-!
Contracts of actions. A contract says how the states before and after an action are related, when
the action succeeds and when it fails. What holds of single actions and of doing one thing after the
other holds of the processing of whole templates.
-/

namespace TemplateSuite

theorem FileDirective.checkRelative_of_parse {text : Text} {directive : FileDirective}
    (h : FileDirective.parse text = .ok directive) :
    Path.checkRelative directive.name = .ok () := by
  unfold FileDirective.parse at h
  split at h
  · cases h
  · split at h
    · cases h
    · rename_i hrelative
      split at h
      · cases h
      · split at h
        · cases h
        · cases h
          exact hrelative

/-- The progress once a template has begun. -/
def Progress.entering (p : Progress) (file : Text) : Progress :=
  { p with opened := file :: p.opened, events := p.events ++ [.enteringTemplate file] }

/-- The progress once the innermost template has ended. -/
def Progress.leaving (p : Progress) (file : Text) : Progress :=
  { p with opened := p.opened.tail, events := p.events ++ [.leavingTemplate file] }

namespace Processing

open StateAction

variable {α β : Type}

theorem note_bind_apply (event : Event) (f : Unit → Processing β) (p : Progress) :
    (note event >>= f) p = f () { p with events := p.events ++ [event] } :=
  bind_of_ok rfl f

theorem forM_cons (x : α) (rest : List α) (f : α → Processing Unit) :
    (x :: rest).forM f = f x >>= fun _ => rest.forM f := rfl

theorem forM_append (xs ys : List α) (f : α → Processing Unit) :
    (xs ++ ys).forM f = xs.forM f >>= fun _ => ys.forM f :=
  List.forM_append

theorem forM_singleton (x : α) (f : α → Processing Unit) : [x].forM f = f x :=
  bind_pure_unit

theorem ofExcept_ok_bind {ε : Type} (wrap : ε → TemplateError) (a : α) (f : α → Processing β) :
    ofExcept wrap (.ok a) >>= f = f a := rfl

theorem observe_of_ok {view : FileSystem → Except FileError α} {a : α} {p : Progress}
    (h : view p.files = .ok a) (operation : FileOperation) (path : Text) :
    observe operation path view p = (.ok a, p) := by
  refine (bind_of_ok rfl _).trans ?_
  rw [h]
  rfl

theorem observe_of_error {view : FileSystem → Except FileError α} {e : FileError} {p : Progress}
    (h : view p.files = .error e) (operation : FileOperation) (path : Text) :
    observe operation path view p = (.error (.file operation path e), p) := by
  refine (bind_of_ok rfl _).trans ?_
  rw [h]
  rfl

theorem observe_eq_ok_iff {operation : FileOperation} {path : Text}
    {view : FileSystem → Except FileError α} {a : α} {p after : Progress} :
    observe operation path view p = (.ok a, after) ↔ view p.files = .ok a ∧ p = after := by
  cases hview : view p.files with
  | ok found =>
      rw [observe_of_ok hview, Prod.mk.injEq, Except.ok.injEq, Except.ok.injEq]
  | error e =>
      rw [observe_of_error hview]
      exact ⟨nofun, nofun⟩

theorem change_of_ok {action : Change α} {p : Progress} {a : α} {files : FileSystem}
    (h : action p.files = (.ok a, files)) (operation : FileOperation) (path : Text) :
    change operation path action p =
      (.ok a, { p with files, events := p.events ++ [.changing operation path] }) := by
  simp only [change, h]
  rfl

theorem change_of_error {action : Change α} {p : Progress} {e : FileError} {files : FileSystem}
    (h : action p.files = (.error e, files)) (operation : FileOperation) (path : Text) :
    change operation path action p =
      (.error (.file operation path e),
        { p with files, events := p.events ++ [.changing operation path] }) := by
  simp only [change, h]
  rfl

theorem whileOpen_apply (file : Text) (action : Processing Unit) (p : Progress) :
    whileOpen file action p =
      ((action (p.entering file)).1.mapError (.inTemplate file ·),
        (action (p.entering file)).2.leaving file) := rfl

theorem includeTemplate_eq (setup : Setup) (enter : Text → Processing Unit) (s : Section) :
    includeTemplate setup enter s =
      (if includeTarget s = [] then throw (.invalidSection s.tag s.line .missingInclude)
      else do
        let p ← get
        let path ← ofExcept id (resolveInclude setup p.opened p.files (includeTarget s))
        note (.including path s.line)
        enter path) := by
  unfold includeTemplate
  by_cases h : includeTarget s = []
  · simp only [if_pos h]
    rfl
  · simp only [if_neg h]

theorem openTemplate_eq (setup : Setup) (enter : Text → Processing Unit) (path : Text) :
    openTemplate setup enter path = (do
      let file ← observe .resolveTemplate path (·.canonicalPath path)
      let p ← get
      if file ∈ p.opened then throw (.includeCycle file)
      else do
        let text ← observe .readTemplate file (·.readText file)
        whileOpen file (handleText setup enter text)) := by
  unfold openTemplate
  congr 1
  funext file
  congr 1
  funext p
  simp only [List.contains_iff_mem]
  split <;> rfl

theorem openTemplate_of_read {setup : Setup} {enter : Text → Processing Unit}
    {path file text : Text} {p : Progress} (hfile : p.files.canonicalPath path = .ok file)
    (hclosed : file ∉ p.opened) (htext : p.files.readText file = .ok text) :
    openTemplate setup enter path p = whileOpen file (handleText setup enter text) p := by
  rw [openTemplate_eq, bind_of_ok (observe_of_ok hfile _ _), get_bind_apply, if_neg hclosed,
    bind_of_ok (observe_of_ok htext _ _)]

/-- Remove what is at the path, if anything is. -/
def clearPath (path : Text) : Processing Unit :=
  get >>= fun p =>
    match p.files.status false path with
    | .ok (_, .directory) => change .removeDirectory path (Change.removeTree path)
    | .ok _ => change .removeFile path (Change.removeFile path)
    | .error _ => pure ()

theorem recreateDirectory_eq (path : Text) :
    recreateDirectory path = (do
      clearPath path
      change .createDirectory path (Change.makeDirectories path)) := by
  unfold recreateDirectory clearPath
  rw [bind_assoc]
  congr 1
  funext p
  rcases p.files.status false path with e | ⟨place, entry⟩
  · rfl
  · cases entry <;> rfl

/-- Make the directory that the path is in. -/
def makeParent (path : Text) : Processing Unit :=
  match Path.parent? path with
  | some parent => change .createDirectory parent (Change.makeDirectories parent)
  | none => pure ()

/-- Write a file and put it on the record. -/
def storeFile (file : GeneratedFile) (content : Text) : Processing Unit := do
  change .writeFile file.path (Change.writeFile file.path content)
  note (.generated file content)
  record file

theorem storeFile_of_ok {file : GeneratedFile} {content : Text} {p : Progress}
    {files : FileSystem}
    (h : Change.writeFile file.path content p.files = (.ok (), files)) :
    storeFile file content p = (.ok (), { p with
      files
      events := p.events ++ [.changing .writeFile file.path] ++ [.generated file content]
      generated := p.generated ++ [file] }) := by
  rw [storeFile, bind_of_ok (change_of_ok h _ _), note_bind_apply]
  rfl

theorem generateFile_eq (directory : Text) (s : Section) :
    generateFile directory s = (do
      let directive ← ofExcept id (directiveOf s)
      let p ← get
      let content ← ofExcept .expansion (directive.call.expand p.macros)
      makeParent (Path.join directory directive.name)
      storeFile ⟨Path.join directory directive.name, directive.expect⟩ content) := by
  unfold generateFile makeParent storeFile
  congr 1
  funext directive
  congr 1
  funext p
  congr 1
  funext content
  generalize Path.join directory directive.name = path
  simp only
  cases Path.parent? path <;> rfl

theorem openLimit_pos : 0 < openLimit := by
  unfold openLimit
  generalize FileSystem.maxPathBytes + 1 = exponent
  exact Nat.pow_pos (by decide)

theorem processFile_eq_within (setup : Setup) :
    processFile setup = processFileWithin setup openLimit := by
  funext path
  rw [processFile]

theorem processFile_eq (setup : Setup) :
    ∃ room, ∀ path, processFile setup path =
      openTemplate setup (processFileWithin setup room) path := by
  obtain ⟨room, hroom⟩ := Nat.exists_eq_add_of_lt openLimit_pos
  refine ⟨room, fun path => ?_⟩
  rw [processFile, hroom, Nat.zero_add, processFileWithin]

theorem checkRelative_of_directiveOf {s : Section} {directive : FileDirective}
    (h : directiveOf s = .ok directive) : Path.checkRelative directive.name = .ok () := by
  rw [directiveOf] at h
  cases hparse : FileDirective.parse (directiveText s) with
  | error fault =>
      rw [hparse] at h
      cases h
  | ok found =>
      rw [hparse] at h
      cases h
      exact FileDirective.checkRelative_of_parse hparse

end Processing

/-- What an action may do to the progress. Doing nothing is within the contract, and so is doing one
thing within it after the other. -/
structure Contract where
  /-- Of the states before and after an action that succeeds. -/
  done : Progress → Progress → Prop
  /-- Of the states before and after an action that fails. -/
  stopped : Progress → Progress → Prop
  refl : ∀ p, done p p
  trans : ∀ {p q r}, done p q → done q r → done p r
  stopped_refl : ∀ p, stopped p p
  stopped_after : ∀ {p q r}, done p q → stopped q r → stopped p r

/-- The events that only say what happened: no template begins or ends with them, no change of the
file system is tried and no file is written. -/
def Event.isRemark : Event → Bool
  | .changing .. => false
  | .enteringTemplate _ => false
  | .leavingTemplate _ => false
  | .generated .. => false
  | _ => true

/-- The directories that the `dir` sections of a template can stand for. -/
inductive OutputDirectory (root : Text) : Text → Prop
  | top {s : Section} {directory : Text} :
      Processing.childDirectory root s = .ok directory → OutputDirectory root directory
  | nested {s : Section} {parent directory : Text} :
      OutputDirectory root parent → Processing.childDirectory parent s = .ok directory →
        OutputDirectory root directory

/-- The files that the `file` sections of a template can ask for. -/
inductive AskedFor (root : Text) : GeneratedFile → Prop
  | intro {directory : Text} {s : Section} {directive : FileDirective} :
      OutputDirectory root directory → Processing.directiveOf s = .ok directive →
        AskedFor root ⟨Path.join directory directive.name, directive.expect⟩

/-- The directories that are made: those of the `dir` sections and those that files are put in. -/
inductive MadeDirectory (root : Text) : Text → Prop
  | output {directory : Text} : OutputDirectory root directory → MadeDirectory root directory
  | parent {file : GeneratedFile} {directory : Text} :
      AskedFor root file → Path.parent? file.path = some directory → MadeDirectory root directory

namespace Contract

open StateAction Processing

variable {α β : Type} {c : Contract}

/-- The action keeps to the contract in the given state. -/
structure HoldsAt (c : Contract) (x : Processing α) (p : Progress) : Prop where
  of_ok : ∀ {a after}, x p = (.ok a, after) → c.done p after
  of_error : ∀ {e after}, x p = (.error e, after) → c.stopped p after

/-- The action keeps to the contract. -/
def Holds (c : Contract) (x : Processing α) : Prop :=
  ∀ p, c.HoldsAt x p

theorem HoldsAt.done_or_stopped {x : Processing α} {p : Progress} (h : c.HoldsAt x p) :
    c.done p (x p).2 ∨ c.stopped p (x p).2 := by
  rcases hrun : x p with ⟨e | a, after⟩
  · exact .inr (h.of_error hrun)
  · exact .inl (h.of_ok hrun)

theorem holdsAt_of_eq_ok {x : Processing α} {p after : Progress} {a : α}
    (h : x p = (.ok a, after)) (hdone : c.done p after) : c.HoldsAt x p := by
  constructor
  · intro b final hx
    cases h.symm.trans hx
    exact hdone
  · intro e final hx
    cases h.symm.trans hx

theorem holdsAt_of_eq_error {x : Processing α} {p after : Progress} {e : TemplateError}
    (h : x p = (.error e, after)) (hstopped : c.stopped p after) : c.HoldsAt x p := by
  constructor
  · intro a final hx
    cases h.symm.trans hx
  · intro e' final hx
    cases h.symm.trans hx
    exact hstopped

theorem holds_pure (a : α) : c.Holds (pure a) :=
  fun p => holdsAt_of_eq_ok rfl (c.refl p)

theorem holds_throw (e : TemplateError) : c.Holds (throw e : Processing α) :=
  fun p => holdsAt_of_eq_error rfl (c.stopped_refl p)

theorem holdsAt_bind {x : Processing α} {f : α → Processing β} {p : Progress}
    (hx : c.HoldsAt x p) (hf : ∀ a after, x p = (.ok a, after) → c.HoldsAt (f a) after) :
    c.HoldsAt (x >>= f) p := by
  rcases hrun : x p with ⟨e | a, after⟩
  · exact holdsAt_of_eq_error (bind_of_error hrun f) (hx.of_error hrun)
  · have hnext := hf a after hrun
    have hdone := hx.of_ok hrun
    constructor
    · intro b final hfinal
      rw [bind_of_ok hrun] at hfinal
      exact c.trans hdone (hnext.of_ok hfinal)
    · intro e final hfinal
      rw [bind_of_ok hrun] at hfinal
      exact c.stopped_after hdone (hnext.of_error hfinal)

theorem holds_bind {x : Processing α} {f : α → Processing β} (hx : c.Holds x)
    (hf : ∀ a, c.Holds (f a)) : c.Holds (x >>= f) :=
  fun p => holdsAt_bind (hx p) fun a after _ => hf a after

theorem holds_get_bind {f : Progress → Processing α} (h : ∀ p, c.HoldsAt (f p) p) :
    c.Holds (get >>= f) :=
  fun p => holdsAt_bind (holdsAt_of_eq_ok rfl (c.refl p)) fun q after hget => by
    cases hget
    exact h p

theorem holds_ofExcept {ε : Type} (wrap : ε → TemplateError) (result : Except ε α) :
    c.Holds (ofExcept wrap result) := by
  cases result with
  | ok a => exact holds_pure a
  | error e => exact holds_throw (wrap e)

theorem holds_observe (operation : FileOperation) (path : Text)
    (view : FileSystem → Except FileError α) : c.Holds (observe operation path view) :=
  holds_get_bind fun p => holds_ofExcept _ (view p.files) p

theorem holds_change {operation : FileOperation} {path : Text} {action : Change α}
    (hdone : ∀ a p files, action p.files = (.ok a, files) →
      c.done p { p with files, events := p.events ++ [.changing operation path] })
    (hstopped : ∀ e p files, action p.files = (.error e, files) →
      c.stopped p { p with files, events := p.events ++ [.changing operation path] }) :
    c.Holds (change operation path action) := by
  intro p
  rcases hrun : action p.files with ⟨e | a, files⟩
  · exact holdsAt_of_eq_error (change_of_error hrun _ _) (hstopped e p files hrun)
  · exact holdsAt_of_eq_ok (change_of_ok hrun _ _) (hdone a p files hrun)

theorem holds_clearPath {path : Text}
    (h : ∀ operation (action : Change Unit), c.Holds (change operation path action)) :
    c.Holds (clearPath path) := by
  refine holds_get_bind fun p => ?_
  split
  · exact h _ _ p
  · exact h _ _ p
  · exact holds_pure () p

theorem holds_note {event : Event}
    (h : ∀ p, c.done p { p with events := p.events ++ [event] }) : c.Holds (note event) :=
  fun p => holdsAt_of_eq_ok rfl (h p)

theorem holds_recreateDirectory {path : Text} (hclear : c.Holds (clearPath path))
    (hmake : c.Holds (change .createDirectory path (Change.makeDirectories path))) :
    c.Holds (recreateDirectory path) := by
  rw [recreateDirectory_eq]
  exact holds_bind hclear fun _ => hmake

theorem holds_makeParent {path : Text} (h : ∀ parent, Path.parent? path = some parent →
    c.Holds (change .createDirectory parent (Change.makeDirectories parent))) :
    c.Holds (makeParent path) := by
  unfold makeParent
  split
  · exact h _ ‹_›
  · exact holds_pure ()

theorem holds_defineMacro
    (hremark : ∀ event p, event.isRemark → c.done p { p with events := p.events ++ [event] })
    (hdefine : ∀ (m : Macro) p, c.done p { p with macros := p.macros.define m }) (s : Section) :
    c.Holds (defineMacro s) := by
  refine holds_bind (holds_ofExcept _ _) fun m => ?_
  refine holds_bind (holds_note fun p => hremark _ p rfl) fun _ => holds_get_bind fun p => ?_
  refine holdsAt_bind (holdsAt_of_eq_ok rfl (hdefine m p)) fun _ after _ => ?_
  split
  · exact holds_note (fun p => hremark _ p rfl) after
  · exact holds_pure () after

theorem holdsAt_whileOpen {file : Text} {action : Processing Unit} {p : Progress}
    (h : c.HoldsAt action (p.entering file))
    (hdone : ∀ after, c.done (p.entering file) after → c.done p (after.leaving file))
    (hstopped : ∀ after, c.stopped (p.entering file) after → c.stopped p (after.leaving file)) :
    c.HoldsAt (whileOpen file action) p := by
  rcases hrun : action (p.entering file) with ⟨e | a, after⟩
  · refine holdsAt_of_eq_error (e := .inTemplate file e) ?_ (hstopped after (h.of_error hrun))
    rw [whileOpen_apply, hrun]
    rfl
  · refine holdsAt_of_eq_ok (a := a) ?_ (hdone after (h.of_ok hrun))
    rw [whileOpen_apply, hrun]
    rfl

theorem holds_forM {xs : List α} {f : α → Processing Unit} (h : ∀ x ∈ xs, c.Holds (f x)) :
    c.Holds (xs.forM f) := by
  induction xs with
  | nil => exact holds_pure ()
  | cons x rest ih =>
      rw [forM_cons]
      exact holds_bind (h x List.mem_cons_self) fun _ =>
        ih fun y hy => h y (List.mem_cons_of_mem _ hy)

/-- What a contract must hold of so that it holds of the filling of directories. -/
structure Fills (c : Contract) (setup : Setup) : Prop where
  remark : ∀ event p, event.isRemark → c.done p { p with events := p.events ++ [event] }
  clear : ∀ directory, OutputDirectory setup.outputRoot directory → c.Holds (clearPath directory)
  makeDirectories : ∀ path, MadeDirectory setup.outputRoot path →
    c.Holds (change .createDirectory path (Change.makeDirectories path))
  store : ∀ file content, AskedFor setup.outputRoot file → c.Holds (storeFile file content)

variable {setup : Setup}

theorem Fills.note (h : c.Fills setup) {event : Event} (hremark : event.isRemark) :
    c.Holds (note event) :=
  holds_note fun p => h.remark event p hremark

theorem Fills.recreateDirectory (h : c.Fills setup) {directory : Text}
    (hdirectory : OutputDirectory setup.outputRoot directory) :
    c.Holds (recreateDirectory directory) :=
  holds_recreateDirectory (h.clear directory hdirectory)
    (h.makeDirectories directory (.output hdirectory))

theorem Fills.generateFile (h : c.Fills setup) {directory : Text}
    (hdirectory : OutputDirectory setup.outputRoot directory) (s : Section) :
    c.Holds (generateFile directory s) := by
  rw [generateFile_eq]
  cases hdirective : directiveOf s with
  | error e => exact holds_throw e
  | ok directive =>
      rw [ofExcept_ok_bind]
      refine holds_get_bind fun p => ?_
      cases directive.call.expand p.macros with
      | error e => exact holds_throw _ p
      | ok content =>
          have hasked := AskedFor.intro hdirectory hdirective
          rw [ofExcept_ok_bind]
          exact holds_bind (holds_makeParent fun parent hparent =>
            h.makeDirectories parent (.parent hasked hparent)) (fun _ => h.store _ _ hasked) p

theorem holds_fillItem {target : Text} {fill : Text → Section → Processing Unit} (item : Item)
    (hnote : ∀ event : Event, event.isRemark → c.Holds (Processing.note event))
    (hfile : ∀ inner, c.Holds (Processing.generateFile target inner))
    (hfill : ∀ inner nested, item = .block inner → childDirectory target inner = .ok nested →
      c.Holds (fill nested inner)) :
    c.Holds (fillItem fill target item) := by
  cases item with
  | text line content =>
      rw [Processing.fillItem]
      split
      · exact holds_pure ()
      · exact hnote _ rfl
  | block inner =>
      rw [Processing.fillItem]
      split
      · exact hfile inner
      · split
        · exact holds_pure ()
        · split
          · cases hchild : childDirectory target inner with
            | error fault => exact holds_throw _
            | ok nested => exact hfill inner nested rfl hchild
          · exact hnote _ rfl

theorem Fills.fillItem (h : c.Fills setup) {target : Text}
    (htarget : OutputDirectory setup.outputRoot target) {fill : Text → Section → Processing Unit}
    (item : Item) (hfill : ∀ inner nested, item = .block inner →
      OutputDirectory setup.outputRoot nested → c.Holds (fill nested inner)) :
    c.Holds (fillItem fill target item) :=
  holds_fillItem item (fun _ => h.note) (h.generateFile htarget)
    fun inner nested heq hchild => hfill inner nested heq (.nested htarget hchild)

theorem Fills.fillDirectory (h : c.Fills setup) {target : Text}
    (htarget : OutputDirectory setup.outputRoot target) (s : Section) :
    c.Holds (fillDirectory target s) := by
  induction s using Section.induction generalizing target with
  | step s ih =>
      rw [fillDirectory_eq]
      refine holds_bind (h.recreateDirectory htarget) fun _ => ?_
      refine holds_bind (h.note rfl) fun _ => ?_
      cases hscan : scan s.body s.bodyLine with
      | error e => exact holds_throw (.nesting e)
      | ok items =>
          rw [ofExcept_ok_bind]
          refine holds_forM fun item hmem =>
            h.fillItem htarget item fun inner nested heq hnested => ?_
          subst heq
          exact ih hscan hmem hnested

theorem Fills.generateDirectory (h : c.Fills setup) (s : Section) :
    c.Holds (generateDirectory setup.outputRoot s) := by
  unfold Processing.generateDirectory
  cases hchild : childDirectory setup.outputRoot s with
  | error fault => exact holds_throw _
  | ok target => exact h.fillDirectory (.top hchild) s

/-- What a contract must hold of so that it holds of the handling of sections. What is done for a
definition or a directory only matters if the table knows them. -/
structure Handles (c : Contract) (setup : Setup) : Prop where
  remark : ∀ event p, event.isRemark → c.done p { p with events := p.events ++ [event] }
  definition : ∀ s : Section, setup.table.get? s.tag = some .definition → c.Holds (defineMacro s)
  directory : ∀ s : Section, setup.table.get? s.tag = some .directory →
    c.Holds (generateDirectory setup.outputRoot s)
  visit : ∀ {path file text : Text} p (action : Processing Unit),
    p.files.canonicalPath path = .ok file → file ∉ p.opened → p.files.readText file = .ok text →
      c.Holds action → c.HoldsAt (whileOpen file action) p

variable {enter : Text → Processing Unit}

theorem Handles.note (h : c.Handles setup) {event : Event} (hremark : event.isRemark) :
    c.Holds (note event) :=
  holds_note fun p => h.remark event p hremark

theorem Handles.includeTemplate (h : c.Handles setup) (henter : ∀ path, c.Holds (enter path))
    (s : Section) : c.Holds (includeTemplate setup enter s) := by
  rw [includeTemplate_eq]
  split
  · exact holds_throw _
  · refine holds_get_bind fun p => ?_
    refine holdsAt_bind (holds_ofExcept _ _ p) fun path after _ => ?_
    exact holdsAt_bind (h.note rfl after) fun _ next _ => henter path next

theorem Handles.handleSection (h : c.Handles setup) (henter : ∀ path, c.Holds (enter path))
    (s : Section) : c.Holds (handleSection setup enter s) := by
  unfold Processing.handleSection
  split
  · exact h.note rfl
  · rename_i handler htable
    refine holds_bind (h.note rfl) fun _ => ?_
    split
    · exact h.definition s htable
    · exact h.directory s htable
    · exact h.includeTemplate henter s
    · exact holds_pure ()

theorem Handles.handleItem (h : c.Handles setup) (henter : ∀ path, c.Holds (enter path))
    (item : Item) : c.Holds (handleItem setup enter item) := by
  cases item with
  | text line content => exact holds_pure ()
  | block s => exact h.handleSection henter s

theorem Handles.handleText (h : c.Handles setup) (henter : ∀ path, c.Holds (enter path))
    (text : Text) : c.Holds (handleText setup enter text) :=
  holds_bind (holds_ofExcept _ _) fun _ => holds_bind (holds_ofExcept _ _) fun _ =>
    holds_forM fun item _ => h.handleItem henter item

theorem Handles.openTemplate (h : c.Handles setup) (henter : ∀ path, c.Holds (enter path))
    (path : Text) : c.Holds (openTemplate setup enter path) := by
  rw [openTemplate_eq]
  intro p
  refine holdsAt_bind (holds_observe _ _ _ p) fun file after hresolve => ?_
  obtain ⟨hfile, rfl⟩ := observe_eq_ok_iff.mp hresolve
  refine holdsAt_bind (holdsAt_of_eq_ok rfl (c.refl p)) fun q after hget => ?_
  cases hget
  split
  · exact holds_throw _ p
  · rename_i hopened
    refine holdsAt_bind (holds_observe _ _ _ p) fun text after hread => ?_
    obtain ⟨htext, rfl⟩ := observe_eq_ok_iff.mp hread
    exact h.visit p _ hfile hopened htext (h.handleText henter text)

theorem Handles.processFileWithin (h : c.Handles setup) (room : Nat) (path : Text) :
    c.Holds (processFileWithin setup room path) := by
  induction room generalizing path with
  | zero => exact holds_throw _
  | succ room ih => exact h.openTemplate ih path

/-- A contract that the parts of processing keep to holds of the processing of a file. -/
theorem Handles.processFile (h : c.Handles setup) (path : Text) :
    c.Holds (processFile setup path) :=
  h.processFileWithin openLimit path

theorem Handles.processText (h : c.Handles setup) (text : Text) :
    c.Holds (processText setup text) := by
  rw [Processing.processText]
  exact h.handleText h.processFile text

/-- What a contract must hold of so that it holds of the processing of templates. -/
structure Admits (c : Contract) (setup : Setup) : Prop where
  remark : ∀ event p, event.isRemark → c.done p { p with events := p.events ++ [event] }
  define : ∀ (m : Macro) p, c.done p { p with macros := p.macros.define m }
  clear : ∀ directory, OutputDirectory setup.outputRoot directory → c.Holds (clearPath directory)
  makeDirectories : ∀ path, MadeDirectory setup.outputRoot path →
    c.Holds (change .createDirectory path (Change.makeDirectories path))
  store : ∀ file content, AskedFor setup.outputRoot file → c.Holds (storeFile file content)
  visit : ∀ file p (action : Processing Unit), file ∉ p.opened → c.Holds action →
    c.HoldsAt (whileOpen file action) p

theorem Admits.fills (h : c.Admits setup) : c.Fills setup :=
  ⟨h.remark, h.clear, h.makeDirectories, h.store⟩

theorem Admits.note (h : c.Admits setup) {event : Event} (hremark : event.isRemark) :
    c.Holds (note event) :=
  h.fills.note hremark

theorem Admits.defineMacro (h : c.Admits setup) (s : Section) : c.Holds (defineMacro s) :=
  holds_defineMacro h.remark h.define s

theorem Admits.handles (h : c.Admits setup) : c.Handles setup where
  remark := h.remark
  definition s _ := h.defineMacro s
  directory s _ := h.fills.generateDirectory s
  visit p action _ hopened _ haction := h.visit _ p action hopened haction

theorem Admits.fillItem (h : c.Admits setup) {target : Text}
    (htarget : OutputDirectory setup.outputRoot target) {fill : Text → Section → Processing Unit}
    (item : Item) (hfill : ∀ inner nested, item = .block inner →
      OutputDirectory setup.outputRoot nested → c.Holds (fill nested inner)) :
    c.Holds (fillItem fill target item) :=
  h.fills.fillItem htarget item hfill

theorem Admits.fillDirectory (h : c.Admits setup) {target : Text}
    (htarget : OutputDirectory setup.outputRoot target) (s : Section) :
    c.Holds (fillDirectory target s) :=
  h.fills.fillDirectory htarget s

theorem Admits.generateDirectory (h : c.Admits setup) (s : Section) :
    c.Holds (generateDirectory setup.outputRoot s) :=
  h.fills.generateDirectory s

theorem Admits.includeTemplate (h : c.Admits setup) (henter : ∀ path, c.Holds (enter path))
    (s : Section) : c.Holds (includeTemplate setup enter s) :=
  h.handles.includeTemplate henter s

theorem Admits.handleItem (h : c.Admits setup) (henter : ∀ path, c.Holds (enter path))
    (item : Item) : c.Holds (handleItem setup enter item) :=
  h.handles.handleItem henter item

theorem Admits.processFileWithin (h : c.Admits setup) (room : Nat) (path : Text) :
    c.Holds (processFileWithin setup room path) :=
  h.handles.processFileWithin room path

theorem Admits.processFile (h : c.Admits setup) (path : Text) :
    c.Holds (processFile setup path) :=
  h.handles.processFile path

theorem Admits.processText (h : c.Admits setup) (text : Text) :
    c.Holds (processText setup text) :=
  h.handles.processText text

end Contract

end TemplateSuite
