import TemplateSuite.Proofs.Generation.Run

namespace TemplateSuite

/-- The same progress with more events before those it has. -/
def Progress.after (past : List Event) (p : Progress) : Progress :=
  { p with events := past ++ p.events }

theorem Progress.after_add (past : List Event) (p : Progress) (event : Event) :
    { p.after past with events := (p.after past).events ++ [event] } =
      Progress.after past { p with events := p.events ++ [event] } := by
  simp only [Progress.after, List.append_assoc]

namespace Processing

open StateAction

variable {α β : Type}

/-- Events before do not matter to the action. -/
def Oblivious (x : Processing α) : Prop :=
  ∀ past p, x (p.after past) = ((x p).1, (x p).2.after past)

theorem oblivious_pure (a : α) : Oblivious (pure a) := fun _ _ => rfl

theorem oblivious_throw (e : TemplateError) : Oblivious (throw e : Processing α) := fun _ _ => rfl

theorem oblivious_bind {x : Processing α} {f : α → Processing β} (hx : Oblivious x)
    (hf : ∀ a, Oblivious (f a)) : Oblivious (x >>= f) := by
  intro past p
  have hfirst := hx past p
  rcases hrun : x p with ⟨e | a, q⟩
  · rw [hrun] at hfirst
    rw [bind_of_error hrun, bind_of_error hfirst]
  · rw [hrun] at hfirst
    rw [bind_of_ok hrun, bind_of_ok hfirst, hf a past q]

theorem oblivious_get_bind {f : Progress → Processing α}
    (hblind : ∀ past p, f (p.after past) = f p) (hf : ∀ p, Oblivious (f p)) :
    Oblivious (get >>= f) := by
  intro past p
  rw [get_bind_apply, get_bind_apply, hblind, hf]

theorem oblivious_ofExcept {ε : Type} (wrap : ε → TemplateError) (result : Except ε α) :
    Oblivious (ofExcept wrap result) := by
  cases result with
  | ok a => exact oblivious_pure a
  | error e => exact oblivious_throw (wrap e)

theorem oblivious_note (event : Event) : Oblivious (note event) := by
  intro past p
  exact congrArg (Except.ok (), ·) (Progress.after_add past p event)

theorem oblivious_observe (operation : FileOperation) (path : Text)
    (view : FileSystem → Except FileError α) : Oblivious (observe operation path view) :=
  oblivious_get_bind (fun _ _ => rfl) fun _ => oblivious_ofExcept _ _

theorem oblivious_change (operation : FileOperation) (path : Text) (action : Change α) :
    Oblivious (change operation path action) := by
  intro past p
  rcases hrun : action p.files with ⟨e | a, files⟩
  · rw [change_of_error hrun, change_of_error (p := p.after past) hrun]
    exact congrArg (Except.error _, ·) (Progress.after_add past { p with files } _)
  · rw [change_of_ok hrun, change_of_ok (p := p.after past) hrun]
    exact congrArg (Except.ok a, ·) (Progress.after_add past { p with files } _)

theorem oblivious_forM {xs : List α} {f : α → Processing Unit}
    (h : ∀ x ∈ xs, Oblivious (f x)) : Oblivious (xs.forM f) := by
  induction xs with
  | nil => exact oblivious_pure ()
  | cons x rest ih =>
      rw [forM_cons]
      exact oblivious_bind (h x List.mem_cons_self) fun _ =>
        ih fun y hmem => h y (List.mem_cons_of_mem x hmem)

theorem oblivious_whileOpen {file : Text} {action : Processing Unit} (h : Oblivious action) :
    Oblivious (whileOpen file action) := by
  intro past p
  have hentering : (p.after past).entering file = (p.entering file).after past := by
    simp only [Progress.entering, Progress.after, List.append_assoc]
  rw [whileOpen_apply, whileOpen_apply, hentering, h]
  refine congrArg (_, ·) ?_
  simp only [Progress.leaving, Progress.after, List.append_assoc]

theorem oblivious_defineMacro (s : Section) : Oblivious (defineMacro s) := by
  refine oblivious_bind (oblivious_ofExcept _ _) fun m => ?_
  refine oblivious_bind (oblivious_note _) fun _ => ?_
  refine oblivious_get_bind (fun _ _ => rfl) fun p => ?_
  refine oblivious_bind (fun _ _ => rfl) fun _ => ?_
  split
  · exact oblivious_note _
  · exact oblivious_pure ()

theorem oblivious_recreateDirectory (path : Text) : Oblivious (recreateDirectory path) := by
  rw [recreateDirectory_eq]
  refine oblivious_bind ?_ fun _ => oblivious_change _ _ _
  refine oblivious_get_bind (fun _ _ => rfl) fun p => ?_
  split
  · exact oblivious_change _ _ _
  · exact oblivious_change _ _ _
  · exact oblivious_pure ()

theorem oblivious_makeParent (path : Text) : Oblivious (makeParent path) := by
  unfold makeParent
  split
  · exact oblivious_change _ _ _
  · exact oblivious_pure ()

theorem oblivious_storeFile (file : GeneratedFile) (content : Text) :
    Oblivious (storeFile file content) :=
  oblivious_bind (oblivious_change _ _ _) fun _ =>
    oblivious_bind (oblivious_note _) fun _ _ _ => rfl

theorem oblivious_generateFile (directory : Text) (s : Section) :
    Oblivious (generateFile directory s) := by
  rw [generateFile_eq]
  refine oblivious_bind (oblivious_ofExcept _ _) fun directive => ?_
  refine oblivious_get_bind (fun _ _ => rfl) fun p => ?_
  refine oblivious_bind (oblivious_ofExcept _ _) fun content => ?_
  exact oblivious_bind (oblivious_makeParent _) fun _ => oblivious_storeFile _ _

theorem oblivious_fillItem {fill : Text → Section → Processing Unit} (target : Text) (item : Item)
    (h : ∀ inner nested, item = .block inner → Oblivious (fill nested inner)) :
    Oblivious (fillItem fill target item) := by
  cases item with
  | text line content =>
      rw [fillItem]
      split
      · exact oblivious_pure ()
      · exact oblivious_note _
  | block inner =>
      rw [fillItem]
      split
      · exact oblivious_generateFile target inner
      · split
        · exact oblivious_pure ()
        · split
          · exact oblivious_bind (oblivious_ofExcept _ _) fun nested => h inner nested rfl
          · exact oblivious_note _

theorem oblivious_fillDirectory (target : Text) (s : Section) :
    Oblivious (fillDirectory target s) := by
  induction s using Section.induction generalizing target with
  | step s ih =>
      rw [fillDirectory_eq]
      refine oblivious_bind (oblivious_recreateDirectory target) fun _ => ?_
      refine oblivious_bind (oblivious_note _) fun _ => ?_
      cases hscan : scan s.body s.bodyLine with
      | error e => exact oblivious_throw _
      | ok items =>
          rw [ofExcept_ok_bind]
          refine oblivious_forM fun item hmem => oblivious_fillItem target item ?_
          intro inner nested heq
          subst heq
          exact ih hscan hmem nested

variable {setup : Setup} {enter : Text → Processing Unit}

theorem oblivious_includeTemplate (h : ∀ path, Oblivious (enter path)) (s : Section) :
    Oblivious (includeTemplate setup enter s) := by
  rw [includeTemplate_eq]
  split
  · exact oblivious_throw _
  · refine oblivious_get_bind (fun _ _ => rfl) fun p => ?_
    refine oblivious_bind (oblivious_ofExcept _ _) fun path => ?_
    exact oblivious_bind (oblivious_note _) fun _ => h path

theorem oblivious_handleSection (h : ∀ path, Oblivious (enter path)) (s : Section) :
    Oblivious (handleSection setup enter s) := by
  unfold handleSection
  split
  · exact oblivious_note _
  · refine oblivious_bind (oblivious_note _) fun _ => ?_
    split
    · exact oblivious_defineMacro s
    · exact oblivious_bind (oblivious_ofExcept _ _) fun target => oblivious_fillDirectory target s
    · exact oblivious_includeTemplate h s
    · exact oblivious_pure ()

theorem oblivious_handleText (h : ∀ path, Oblivious (enter path)) (text : Text) :
    Oblivious (handleText setup enter text) := by
  refine oblivious_bind (oblivious_ofExcept _ _) fun _ => ?_
  refine oblivious_bind (oblivious_ofExcept _ _) fun items => oblivious_forM fun item _ => ?_
  cases item with
  | text line content => exact oblivious_pure ()
  | block s => exact oblivious_handleSection h s

theorem oblivious_processFileWithin (room : Nat) (path : Text) :
    Oblivious (processFileWithin setup room path) := by
  induction room generalizing path with
  | zero => exact oblivious_throw _
  | succ room ih =>
      rw [processFileWithin, openTemplate_eq]
      refine oblivious_bind (oblivious_observe _ _ _) fun file => ?_
      refine oblivious_get_bind (fun _ _ => rfl) fun p => ?_
      split
      · exact oblivious_throw _
      · exact oblivious_bind (oblivious_observe _ _ _) fun text =>
          oblivious_whileOpen (oblivious_handleText ih text)

theorem oblivious_processFile (path : Text) : Oblivious (processFile setup path) :=
  oblivious_processFileWithin openLimit path

end Processing

theorem Generator.oblivious_processTemplates (setup : Setup) (templates : List Text) :
    Processing.Oblivious (Generator.processTemplates setup templates) := by
  rw [Generator.processTemplates_eq_forM]
  exact Processing.oblivious_forM fun path _ =>
    Processing.oblivious_bind (Processing.oblivious_note _) fun _ =>
      Processing.oblivious_processFile path

end TemplateSuite
