import TemplateSuite.Proofs.Generation.Contract
import TemplateSuite.Proofs.Template.Numbering

/-!
Two runs side by side. What a template does to the files, the macros and the record depends on
neither the events so far nor the numbers of its lines, and on the open templates only where it
includes a file.
-/

namespace TemplateSuite

/-- The states agree but for the events and the open templates, which are `left` and `right`. If the
comparison is exact, the events agree too. -/
structure Alike (exact : Prop) (left right : List Text) (p q : Progress) : Prop where
  files : p.files = q.files
  macros : p.macros = q.macros
  generated : p.generated = q.generated
  opened_left : p.opened = left
  opened_right : q.opened = right
  events : exact → p.events = q.events

theorem Alike.refl {exact : Prop} (p : Progress) : Alike exact p.opened p.opened p p where
  files := rfl
  macros := rfl
  generated := rfl
  opened_left := rfl
  opened_right := rfl
  events := fun _ => rfl

theorem Item.Alike.refl {exact : Prop} (item : Item) : item.Alike exact item := by
  cases item with
  | text number content => exact .text content fun _ => rfl
  | block s => exact .block s.tag s.argument s.body fun _ => rfl

namespace Processing

open StateAction

variable {α β γ δ : Type} {exact : Prop} {left right : List Text}

/-- From these states both actions succeed with related values, or both fail; after that the states
are alike. -/
inductive RelatedAt (exact : Prop) (left right : List Text) (R : α → β → Prop) (x : Processing α)
    (y : Processing β) (p q : Progress) : Prop
  | done {a : α} {b : β} {p' q' : Progress} : x p = (.ok a, p') → y q = (.ok b, q') → R a b →
      Alike exact left right p' q' → RelatedAt exact left right R x y p q
  | stopped {e e' : TemplateError} {p' q' : Progress} : x p = (.error e, p') →
      y q = (.error e', q') → (exact → e = e') → Alike exact left right p' q' →
        RelatedAt exact left right R x y p q

theorem RelatedAt.congr {R : α → β → Prop} {x x' : Processing α} {y y' : Processing β}
    {p p' q q' : Progress} (h : RelatedAt exact left right R x y p q) (hx : x' p' = x p)
    (hy : y' q' = y q) : RelatedAt exact left right R x' y' p' q' := by
  cases h with
  | done hxp hyq hR hafter => exact .done (hx.trans hxp) (hy.trans hyq) hR hafter
  | stopped hxp hyq he hafter => exact .stopped (hx.trans hxp) (hy.trans hyq) he hafter

/-- From alike states the actions go alike. -/
def Related (exact : Prop) (left right : List Text) (R : α → β → Prop) (x : Processing α)
    (y : Processing β) : Prop :=
  ∀ p q, Alike exact left right p q → RelatedAt exact left right R x y p q

theorem related_pure {R : α → β → Prop} {a : α} {b : β} (h : R a b) :
    Related exact left right R (pure a) (pure b) :=
  fun _ _ halike => .done rfl rfl h halike

theorem related_throw {R : α → β → Prop} {e e' : TemplateError} (h : exact → e = e') :
    Related exact left right R (throw e) (throw e') :=
  fun _ _ halike => .stopped rfl rfl h halike

theorem relatedAt_bind {R : α → β → Prop} {S : γ → δ → Prop} {x : Processing α} {y : Processing β}
    {f : α → Processing γ} {g : β → Processing δ} {p q : Progress}
    (hxy : RelatedAt exact left right R x y p q)
    (hfg : ∀ a b, R a b → Related exact left right S (f a) (g b)) :
    RelatedAt exact left right S (x >>= f) (y >>= g) p q := by
  cases hxy with
  | @done a b p' q' hx hy hR halike =>
      cases hfg a b hR p' q' halike with
      | done hf hg hS hafter =>
          exact .done ((bind_of_ok hx f).trans hf) ((bind_of_ok hy g).trans hg) hS hafter
      | stopped hf hg he hafter =>
          exact .stopped ((bind_of_ok hx f).trans hf) ((bind_of_ok hy g).trans hg) he hafter
  | stopped hx hy he halike =>
      exact .stopped (bind_of_error hx f) (bind_of_error hy g) he halike

theorem related_bind {R : α → β → Prop} {S : γ → δ → Prop} {x : Processing α} {y : Processing β}
    {f : α → Processing γ} {g : β → Processing δ} (hxy : Related exact left right R x y)
    (hfg : ∀ a b, R a b → Related exact left right S (f a) (g b)) :
    Related exact left right S (x >>= f) (y >>= g) :=
  fun p q halike => relatedAt_bind (hxy p q halike) hfg

theorem related_get_bind {R : α → β → Prop} {f : Progress → Processing α}
    {g : Progress → Processing β}
    (h : ∀ p q, Alike exact left right p q → RelatedAt exact left right R (f p) (g q) p q) :
    Related exact left right R (get >>= f) (get >>= g) := by
  intro p q halike
  cases h p q halike with
  | done hf hg hR hafter => exact .done (bind_of_ok rfl f ▸ hf) (bind_of_ok rfl g ▸ hg) hR hafter
  | stopped hf hg he hafter =>
      exact .stopped (bind_of_ok rfl f ▸ hf) (bind_of_ok rfl g ▸ hg) he hafter

theorem related_ofExcept {ε ε' : Type} {R : α → β → Prop} {wrap : ε → TemplateError}
    {wrap' : ε' → TemplateError} {result : Except ε α} {result' : Except ε' β}
    (h : SameEnd exact R (result.mapError wrap) (result'.mapError wrap')) :
    Related exact left right R (ofExcept wrap result) (ofExcept wrap' result') := by
  cases result with
  | ok a =>
      cases result' with
      | ok b =>
          cases h with
          | done hR => exact related_pure hR
      | error e' => nomatch h
  | error e =>
      cases result' with
      | ok b => nomatch h
      | error e' =>
          cases h with
          | stopped he => exact related_throw he

theorem sameEnd_mapError {ε : Type} {wrap wrap' : ε → TemplateError} (h : exact → wrap = wrap')
    (result : Except ε α) :
    SameEnd exact Eq (result.mapError wrap) (result.mapError wrap') := by
  cases result with
  | ok a => exact .done rfl
  | error e => exact .stopped fun hexact => by rw [h hexact]

theorem related_note {event event' : Event} (h : exact → event = event') :
    Related exact left right Eq (note event) (note event') := by
  intro p q halike
  refine .done rfl rfl rfl { halike with events := fun hexact => ?_ }
  simp only [halike.events hexact, h hexact]

theorem related_observe (operation : FileOperation) (path : Text)
    (view : FileSystem → Except FileError α) :
    Related exact left right Eq (observe operation path view) (observe operation path view) := by
  refine related_get_bind fun p q halike => ?_
  rw [halike.files]
  exact related_ofExcept (sameEnd_mapError (fun _ => rfl) _) p q halike

theorem related_change (operation : FileOperation) (path : Text) (action : Change α) :
    Related exact left right Eq (change operation path action) (change operation path action) := by
  intro p q halike
  rcases hrun : action q.files with ⟨e | a, files⟩
  · refine .stopped (change_of_error (halike.files ▸ hrun) operation path)
      (change_of_error hrun operation path) (fun _ => rfl)
      { halike with files := rfl, events := fun hexact => ?_ }
    simp only [halike.events hexact]
  · refine .done (change_of_ok (halike.files ▸ hrun) operation path)
      (change_of_ok hrun operation path) rfl
      { halike with files := rfl, events := fun hexact => ?_ }
    simp only [halike.events hexact]

theorem related_record (file : GeneratedFile) :
    Related exact left right Eq (record file) (record file) := by
  intro p q halike
  refine .done rfl rfl rfl { halike with generated := ?_ }
  simp only [halike.generated]

theorem related_forM {R : α → β → Prop} {xs : List α} {ys : List β} {f : α → Processing Unit}
    {g : β → Processing Unit} (hxs : List.Forall₂ R xs ys)
    (hfg : ∀ x ∈ xs, ∀ y, R x y → Related exact left right Eq (f x) (g y)) :
    Related exact left right Eq (xs.forM f) (ys.forM g) := by
  induction hxs with
  | nil => exact related_pure rfl
  | @cons x y xs ys hxy _ ih =>
      rw [forM_cons, forM_cons]
      exact related_bind (hfg x List.mem_cons_self y hxy) fun _ _ _ =>
        ih fun z hz => hfg z (List.mem_cons_of_mem x hz)

variable {number number' : Nat}

theorem related_defineMacro (h : exact → number = number') (tag argument body : Text) :
    Related exact left right Eq (defineMacro ⟨tag, argument, body, number⟩)
      (defineMacro ⟨tag, argument, body, number'⟩) := by
  refine related_bind (related_ofExcept (sameEnd_mapError (fun hexact => ?_) _)) fun m _ hm => ?_
  · rw [h hexact]
  · subst hm
    refine related_bind (related_note fun hexact => ?_) fun _ _ _ => ?_
    · rw [h hexact]
    · refine related_get_bind fun p q halike => ?_
      rw [halike.macros]
      have hdefine : RelatedAt exact left right Eq
          (modify fun r : Progress => { r with macros := q.macros.define m })
          (modify fun r : Progress => { r with macros := q.macros.define m }) p q :=
        .done (a := ()) (b := ()) rfl rfl rfl { halike with macros := rfl }
      refine relatedAt_bind hdefine fun _ _ _ => ?_
      split
      · exact related_note fun _ => rfl
      · exact related_pure rfl

theorem related_clearPath (path : Text) :
    Related exact left right Eq (clearPath path) (clearPath path) := by
  refine related_get_bind fun p q halike => ?_
  rw [halike.files]
  split
  · exact related_change _ _ _ p q halike
  · exact related_change _ _ _ p q halike
  · exact related_pure rfl p q halike

theorem related_recreateDirectory (path : Text) :
    Related exact left right Eq (recreateDirectory path) (recreateDirectory path) := by
  rw [recreateDirectory_eq]
  exact related_bind (related_clearPath path) fun _ _ _ => related_change _ _ _

theorem related_makeParent (path : Text) :
    Related exact left right Eq (makeParent path) (makeParent path) := by
  unfold makeParent
  split
  · exact related_change _ _ _
  · exact related_pure rfl

theorem related_storeFile (file : GeneratedFile) (content : Text) :
    Related exact left right Eq (storeFile file content) (storeFile file content) :=
  related_bind (related_change _ _ _) fun _ _ _ =>
    related_bind (related_note fun _ => rfl) fun _ _ _ => related_record file

theorem related_generateFile (h : exact → number = number') (directory tag argument body : Text) :
    Related exact left right Eq (generateFile directory ⟨tag, argument, body, number⟩)
      (generateFile directory ⟨tag, argument, body, number'⟩) := by
  rw [generateFile_eq, generateFile_eq]
  have hdirective : SameEnd exact Eq
      ((directiveOf ⟨tag, argument, body, number⟩).mapError id)
      ((directiveOf ⟨tag, argument, body, number'⟩).mapError id) := by
    have htext : directiveText ⟨tag, argument, body, number'⟩ =
        directiveText ⟨tag, argument, body, number⟩ := rfl
    simp only [directiveOf, htext]
    cases FileDirective.parse (directiveText ⟨tag, argument, body, number⟩) with
    | error fault => exact .stopped fun hexact => by rw [h hexact]
    | ok directive => exact .done rfl
  refine related_bind (related_ofExcept hdirective) fun directive _ heq => ?_
  subst heq
  refine related_get_bind fun p q halike => ?_
  rw [halike.macros]
  refine relatedAt_bind (related_ofExcept (sameEnd_mapError (fun _ => rfl) _) p q halike)
    fun content _ heq => ?_
  subst heq
  exact related_bind (related_makeParent _) fun _ _ _ => related_storeFile _ _

theorem related_fillItem {item item' : Item} (h : item.Alike exact item') (target : Text)
    (hfill : ∀ {tag argument body : Text} {line line' : Nat},
      item = .block ⟨tag, argument, body, line⟩ → (exact → line = line') → ∀ nested,
        Related exact left right Eq (fillDirectory nested ⟨tag, argument, body, line⟩)
          (fillDirectory nested ⟨tag, argument, body, line'⟩)) :
    Related exact left right Eq (fillItem fillDirectory target item)
      (fillItem fillDirectory target item') := by
  cases h with
  | text content hline =>
      simp only [fillItem]
      split
      · exact related_pure rfl
      · exact related_note fun hexact => by rw [hline hexact]
  | @block line line' tag argument body hline =>
      simp only [fillItem]
      split
      · exact related_generateFile hline _ _ _ _
      · split
        · exact related_pure rfl
        · split
          · refine related_bind (related_ofExcept (sameEnd_mapError (fun hexact => ?_) _))
              fun nested _ heq => ?_
            · rw [hline hexact]
            · subst heq
              exact hfill rfl hline nested
          · exact related_note fun hexact => by rw [hline hexact]

theorem related_fillDirectory (h : exact → number = number') (target tag argument body : Text) :
    Related exact left right Eq (fillDirectory target ⟨tag, argument, body, number⟩)
      (fillDirectory target ⟨tag, argument, body, number'⟩) := by
  generalize hs : (⟨tag, argument, body, number⟩ : Section) = s
  induction s using Section.induction generalizing target tag argument body number number' with
  | step s ih =>
      subst hs
      rw [fillDirectory_eq, fillDirectory_eq]
      refine related_bind (related_recreateDirectory target) fun _ _ _ =>
        related_bind (related_note fun _ => rfl) fun _ _ _ => ?_
      have hnumber : exact → number + 1 = number' + 1 := fun hexact => by rw [h hexact]
      have hitems := Scan.scan_alike hnumber body
      simp only [Section.bodyLine] at ih ⊢
      generalize hscan : scan body (number + 1) = found at hitems ⊢
      generalize scan body (number' + 1) = found' at hitems ⊢
      cases hitems with
      | stopped he =>
          exact related_throw fun hexact => congrArg TemplateError.nesting (he hexact)
      | @done items items' hitems =>
          rw [ofExcept_ok_bind, ofExcept_ok_bind]
          refine related_forM hitems fun item hmem item' halike => ?_
          refine related_fillItem halike target fun hblock hline nested => ?_
          subst hblock
          exact ih hscan hmem hline nested _ _ _ rfl

theorem related_generateDirectory (h : exact → number = number')
    (outputRoot tag argument body : Text) :
    Related exact left right Eq (generateDirectory outputRoot ⟨tag, argument, body, number⟩)
      (generateDirectory outputRoot ⟨tag, argument, body, number'⟩) := by
  refine related_bind (related_ofExcept (sameEnd_mapError (fun hexact => ?_) _))
    fun target _ heq => ?_
  · rw [h hexact]
  · subst heq
    exact related_fillDirectory h _ _ _ _

/-- Handle a section; `inclusion` handles those that include a file. -/
def handleSectionWith (setup : Setup) (inclusion : Section → Processing Unit) (s : Section) :
    Processing Unit := do
  match setup.table.get? s.tag with
  | none => note (.unregisteredSection s.tag s.line)
  | some handler =>
    note (.handlingSection s.tag s.line)
    match handler with
    | .definition => defineMacro s
    | .directory => generateDirectory setup.outputRoot s
    | .inclusion => inclusion s
    | .comment => pure ()

def handleItemWith (setup : Setup) (inclusion : Section → Processing Unit) :
    Item → Processing Unit
  | .text .. => pure ()
  | .block s => handleSectionWith setup inclusion s

def handleTextWith (setup : Setup) (inclusion : Section → Processing Unit) (text : Text) :
    Processing Unit := do
  ofExcept .nesting (checkNesting text)
  let items ← ofExcept .nesting (scan text 1)
  items.forM (handleItemWith setup inclusion)

theorem handleItem_eq (setup : Setup) (enter : Text → Processing Unit) :
    handleItem setup enter = handleItemWith setup (includeTemplate setup enter) := by
  funext item
  cases item <;> rfl

theorem handleText_eq (setup : Setup) (enter : Text → Processing Unit) (text : Text) :
    handleText setup enter text = handleTextWith setup (includeTemplate setup enter) text := by
  rw [handleText, handleItem_eq]
  rfl

variable {setup : Setup} {inclusion inclusion' : Section → Processing Unit}

theorem related_handleItemWith {item item' : Item} (h : item.Alike exact item')
    (hinclusion : ∀ s s', item = .block s → item' = .block s' →
      setup.table.get? s.tag = some .inclusion →
        Related exact left right Eq (inclusion s) (inclusion' s')) :
    Related exact left right Eq (handleItemWith setup inclusion item)
      (handleItemWith setup inclusion' item') := by
  cases h with
  | text content hline => exact related_pure rfl
  | @block line line' tag argument body hline =>
      simp only [handleItemWith, handleSectionWith]
      cases htag : setup.table.get? tag with
      | none => exact related_note fun hexact => by rw [hline hexact]
      | some handler =>
          refine related_bind (related_note fun hexact => by rw [hline hexact]) fun _ _ _ => ?_
          cases handler with
          | definition => exact related_defineMacro hline _ _ _
          | directory => exact related_generateDirectory hline _ _ _ _
          | inclusion => exact hinclusion _ _ rfl rfl htag
          | comment => exact related_pure rfl

theorem related_handleTextWith (text : Text)
    (h : ∀ s, setup.table.get? s.tag = some .inclusion →
      Related exact left right Eq (inclusion s) (inclusion' s)) :
    Related exact left right Eq (handleTextWith setup inclusion text)
      (handleTextWith setup inclusion' text) := by
  refine related_bind (related_ofExcept (sameEnd_mapError (fun _ => rfl) _)) fun _ _ _ => ?_
  refine related_bind (related_ofExcept (sameEnd_mapError (fun _ => rfl) _)) fun items _ heq => ?_
  subst heq
  refine related_forM (R := Eq) (List.forall₂_same.mpr fun _ _ => rfl) fun item _ item' heq => ?_
  subst heq
  refine related_handleItemWith (.refl item) fun s s' hs hs' htag => ?_
  cases hs.symm.trans hs'
  exact h s htag

/-- Handle an `include` section where the templates that lead to it are given. -/
def includeAlong (setup : Setup) (chain : List Text) (enter : Text → Processing Unit)
    (s : Section) : Processing Unit :=
  if includeTarget s = [] then throw (.invalidSection s.tag s.line .missingInclude)
  else do
    let p ← get
    let path ← ofExcept id (resolveInclude setup chain p.files (includeTarget s))
    note (.including path s.line)
    enter path

theorem includeTemplate_apply (setup : Setup) (enter : Text → Processing Unit) (s : Section)
    (p : Progress) : includeTemplate setup enter s p = includeAlong setup p.opened enter s p := by
  rw [includeTemplate_eq, includeAlong]
  split <;> rfl

theorem related_includeAlong (setup : Setup) {enter enter' : Text → Processing Unit}
    (h : exact → number = number')
    (henter : ∀ path, Related exact left right Eq (enter path) (enter' path)) (chain : List Text)
    (tag argument body : Text) :
    Related exact left right Eq (includeAlong setup chain enter ⟨tag, argument, body, number⟩)
      (includeAlong setup chain enter' ⟨tag, argument, body, number'⟩) := by
  have htarget : includeTarget ⟨tag, argument, body, number'⟩ =
      includeTarget ⟨tag, argument, body, number⟩ := rfl
  simp only [includeAlong, htarget]
  split
  · exact related_throw fun hexact => by rw [h hexact]
  · refine related_get_bind fun p q halike => ?_
    rw [halike.files]
    refine relatedAt_bind (related_ofExcept (sameEnd_mapError (fun _ => rfl) _) p q halike)
      fun path _ heq => ?_
    subst heq
    exact related_bind (related_note fun hexact => by rw [h hexact]) fun _ _ _ => henter path

theorem related_includeTemplate {same : List Text} {enter enter' : Text → Processing Unit}
    (h : exact → number = number')
    (henter : ∀ path, Related exact same same Eq (enter path) (enter' path))
    (tag argument body : Text) :
    Related exact same same Eq (includeTemplate setup enter ⟨tag, argument, body, number⟩)
      (includeTemplate setup enter' ⟨tag, argument, body, number'⟩) := by
  intro p q halike
  have halong : RelatedAt exact same same Eq _ _ p q :=
    related_includeAlong setup h henter same tag argument body p q halike
  refine halong.congr ?_ ?_
  · rw [includeTemplate_apply, halike.opened_left]
  · rw [includeTemplate_apply, halike.opened_right]

theorem related_elements {same : List Text} {enter enter' : Text → Processing Unit}
    {items items' : List Item} (hitems : List.Forall₂ (Item.Alike exact) items items')
    (henter : ∀ path, Related exact same same Eq (enter path) (enter' path)) :
    Related exact same same Eq (items.forM (handleItem setup enter))
      (items'.forM (handleItem setup enter')) := by
  rw [handleItem_eq, handleItem_eq]
  refine related_forM hitems fun item _ item' hitem => ?_
  refine related_handleItemWith hitem fun s s' hs hs' _ => ?_
  subst hs hs'
  cases hitem with
  | block tag argument body hline => exact related_includeTemplate hline henter tag argument body

/-- Run an action from another state; its errors come out of a template. -/
def bracket (file : Text) (enter leave : Progress → Progress) (action : Processing Unit) :
    Processing Unit :=
  fun p =>
    ((action (enter p)).1.mapError (.inTemplate file ·), leave (action (enter p)).2)

theorem whileOpen_eq (file : Text) (action : Processing Unit) :
    whileOpen file action = bracket file (·.entering file) (·.leaving file) action := rfl

theorem related_bracket {left' right' : List Text} {file : Text}
    {enter leave enter' leave' : Progress → Progress} {x y : Processing Unit}
    (h : Related exact left' right' Eq x y)
    (henter : ∀ {p q}, Alike exact left right p q → Alike exact left' right' (enter p) (enter' q))
    (hleave : ∀ {p q}, Alike exact left' right' p q →
      Alike exact left right (leave p) (leave' q)) :
    Related exact left right Eq (bracket file enter leave x) (bracket file enter' leave' y) := by
  intro p q halike
  cases h _ _ (henter halike) with
  | @done a b p' q' hx hy hR hafter =>
      have hleft : bracket file enter leave x p = (.ok a, leave p') := by
        rw [bracket, hx]
        rfl
      have hright : bracket file enter' leave' y q = (.ok b, leave' q') := by
        rw [bracket, hy]
        rfl
      exact .done hleft hright hR (hleave hafter)
  | @stopped e e' p' q' hx hy he hafter =>
      have hleft : bracket file enter leave x p = (.error (.inTemplate file e), leave p') := by
        rw [bracket, hx]
        rfl
      have hright : bracket file enter' leave' y q = (.error (.inTemplate file e'), leave' q') := by
        rw [bracket, hy]
        rfl
      exact .stopped hleft hright (fun hexact => congrArg _ (he hexact)) (hleave hafter)

theorem related_whileOpen {file : Text} {x y : Processing Unit}
    (h : Related exact (file :: left) (file :: right) Eq x y) :
    Related exact left right Eq (whileOpen file x) (whileOpen file y) := by
  rw [whileOpen_eq, whileOpen_eq]
  refine related_bracket h (fun halike => ?_) (fun halike => ?_)
  · exact {
      halike with
      opened_left := congrArg (file :: ·) halike.opened_left
      opened_right := congrArg (file :: ·) halike.opened_right
      events := fun hexact => by simp only [Progress.entering, halike.events hexact] }
  · exact {
      halike with
      opened_left := congrArg List.tail halike.opened_left
      opened_right := congrArg List.tail halike.opened_right
      events := fun hexact => by simp only [Progress.leaving, halike.events hexact] }

/-- From alike states with the same open templates, processing a file goes alike. -/
theorem related_processFileWithin (room : Nat) (same : List Text) (path : Text) :
    Related exact same same Eq (processFileWithin setup room path)
      (processFileWithin setup room path) := by
  induction room generalizing same path with
  | zero => exact related_throw fun _ => rfl
  | succ room ih =>
      rw [processFileWithin, openTemplate_eq]
      refine related_bind (related_observe _ _ _) fun file _ heq => ?_
      subst heq
      refine related_get_bind fun p q halike => ?_
      rw [halike.opened_left, halike.opened_right]
      split
      · exact related_throw (fun _ => rfl) p q halike
      · refine relatedAt_bind (related_observe _ _ _ p q halike) fun text _ heq => ?_
        subst heq
        refine related_whileOpen ?_
        rw [handleText_eq]
        exact related_handleTextWith text fun s _ =>
          related_includeTemplate (fun _ => rfl) (ih (file :: same)) s.tag s.argument s.body

theorem related_processFile (same : List Text) (path : Text) :
    Related exact same same Eq (processFile setup path) (processFile setup path) := by
  rw [processFile]
  exact related_processFileWithin openLimit same path

end Processing

end TemplateSuite
