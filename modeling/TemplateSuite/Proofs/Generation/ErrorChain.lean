import Mathlib
import TemplateSuite.Proofs.Generation.Lookups
import TemplateSuite.Proofs.Generation.OpenTemplates
import TemplateSuite.Proofs.Template.SectionTree

/-!
Error chains. An error leaves one template after the other, from the one in which something failed
to the one that was processed first. The templates on this way include each other.
-/

namespace TemplateSuite

open StateAction

/-- The error is about one section: not about the nesting of a text, about a file that is open or
out of another template. -/
def TemplateError.ofSection : TemplateError → Bool
  | .nesting _ => false
  | .includeCycle _ => false
  | .inTemplate .. => false
  | _ => true

namespace Processing

variable {α β : Type}

theorem exists_of_forM_eq_error {xs : List α} {f : α → Processing Unit} {p after : Progress}
    {e : TemplateError} (h : xs.forM f p = (.error e, after)) :
    ∃ before x rest q, xs = before ++ x :: rest ∧ before.forM f p = (.ok (), q) ∧
      f x q = (.error e, after) := by
  induction xs generalizing p with
  | nil => cases h
  | cons x rest ih =>
      rw [forM_cons] at h
      rcases bind_eq_error h with hfirst | ⟨⟨⟩, q, hfirst, hrest⟩
      · exact ⟨[], x, rest, p, rfl, rfl, hfirst⟩
      · obtain ⟨before, y, behind, q', hsplit, hbefore, hfails⟩ := ih hrest
        refine ⟨x :: before, y, behind, q', congrArg (x :: ·) hsplit, ?_, hfails⟩
        rw [forM_cons, bind_of_ok hfirst, hbefore]

/-- The action fails with errors about one section only. -/
def FailsInSection (x : Processing α) : Prop :=
  ∀ p e after, x p = (.error e, after) → e.ofSection

namespace FailsInSection

theorem pure (a : α) : FailsInSection (pure a) := nofun

theorem throw {e : TemplateError} (h : e.ofSection) :
    FailsInSection (throw e : Processing α) := by
  intro p e' after herror
  cases herror
  exact h

theorem bind {x : Processing α} {f : α → Processing β} (hx : FailsInSection x)
    (hf : ∀ a, FailsInSection (f a)) : FailsInSection (x >>= f) := by
  intro p e after herror
  rcases bind_eq_error herror with hfirst | ⟨a, q, -, hnext⟩
  · exact hx p e after hfirst
  · exact hf a q e after hnext

theorem get_bind {f : Progress → Processing α} (h : ∀ p, FailsInSection (f p)) :
    FailsInSection (get >>= f) :=
  bind nofun h

theorem note (event : Event) : FailsInSection (note event) := nofun

theorem ofExcept {ε : Type} {wrap : ε → TemplateError} {result : Except ε α}
    (h : ∀ e, result = .error e → (wrap e).ofSection) : FailsInSection (ofExcept wrap result) := by
  cases result with
  | ok a => exact pure a
  | error e => exact throw (h e rfl)

theorem change (operation : FileOperation) (path : Text) (action : Change α) :
    FailsInSection (change operation path action) := by
  intro p e after herror
  rcases hrun : action p.files with ⟨fault | a, files⟩
  · cases (change_of_error hrun operation path).symm.trans herror
    rfl
  · cases (change_of_ok hrun operation path).symm.trans herror

theorem forM {xs : List α} {f : α → Processing Unit} (h : ∀ x ∈ xs, FailsInSection (f x)) :
    FailsInSection (xs.forM f) := by
  intro p e after herror
  obtain ⟨before, x, rest, q, rfl, -, hfails⟩ := exists_of_forM_eq_error herror
  exact h x (List.mem_append_right before List.mem_cons_self) q e after hfails

theorem defineMacro (s : Section) : FailsInSection (defineMacro s) := by
  refine bind (ofExcept fun _ _ => rfl) fun m => bind (note _) fun _ => get_bind fun p => ?_
  refine bind nofun fun _ => ?_
  split
  · exact note _
  · exact pure ()

theorem recreateDirectory (path : Text) : FailsInSection (recreateDirectory path) := by
  rw [recreateDirectory_eq]
  refine bind (get_bind fun p => ?_) fun _ => change _ _ _
  split
  · exact change _ _ _
  · exact change _ _ _
  · exact pure ()

theorem generateFile (directory : Text) (s : Section) :
    FailsInSection (generateFile directory s) := by
  rw [generateFile_eq]
  have hdirective : ∀ e, directiveOf s = .error e → (id e).ofSection := by
    intro e herror
    rw [directiveOf] at herror
    cases hparse : FileDirective.parse (directiveText s) with
    | ok directive =>
        rw [hparse] at herror
        cases herror
    | error fault =>
        rw [hparse] at herror
        cases herror
        rfl
  refine bind (ofExcept hdirective) fun directive => get_bind fun p => ?_
  refine bind (ofExcept fun _ _ => rfl) fun content => bind ?_ fun _ => ?_
  · unfold makeParent
    split
    · exact change _ _ _
    · exact pure ()
  · refine bind (change _ _ _) fun _ => bind (note _) fun _ => ?_
    intro p e after herror
    cases herror

theorem fillDirectory (target : Text) (s : Section) (hbody : checkNesting s.body = .ok ()) :
    FailsInSection (fillDirectory target s) := by
  induction s using Section.induction generalizing target with
  | step s ih =>
      obtain ⟨items, hscan, hsound, -⟩ := Scan.scan_of_checkNesting hbody s.bodyLine
      rw [fillDirectory_eq, hscan, ofExcept_ok_bind]
      refine bind (recreateDirectory target) fun _ => bind (note _) fun _ => forM ?_
      intro item hmem
      cases item with
      | text line content =>
          rw [fillItem]
          split
          · exact pure ()
          · exact note _
      | block inner =>
          rw [fillItem]
          split
          · exact generateFile target inner
          · split
            · exact pure ()
            · split
              · exact bind (ofExcept fun _ _ => rfl) fun nested =>
                  ih hscan hmem nested (hsound _ hmem)
              · exact note _

end FailsInSection

variable {setup : Setup} {enter : Text → Processing Unit} {text : Text} {s : Section}
  {e : TemplateError} {p q after : Progress}

theorem ofSection_of_resolveInclude {opened : List Text} {files : FileSystem} {target : Text}
    (h : resolveInclude setup opened files target = .error e) : e.ofSection := by
  unfold resolveInclude at h
  dsimp only at h
  split at h
  · cases h
  · cases h
    rfl

theorem handleSection_error_cases (hbody : checkNesting s.body = .ok ())
    (h : handleSection setup enter s q = (.error e, after)) :
    e.ofSection ∨ ∃ inner, setup.table.get? s.tag = some .inclusion ∧
      resolveInclude setup q.opened q.files (includeTarget s) = .ok inner ∧
        enter inner (q.including s inner) = (.error e, after) := by
  unfold handleSection at h
  cases hhandler : setup.table.get? s.tag with
  | none =>
      rw [hhandler] at h
      cases h
  | some handler =>
      rw [hhandler] at h
      dsimp only at h
      rw [note_bind_apply] at h
      cases handler with
      | definition => exact .inl (FailsInSection.defineMacro s _ e after h)
      | directory =>
          left
          refine FailsInSection.bind (.ofExcept fun _ _ => rfl) (fun target => ?_) _ e after h
          exact FailsInSection.fillDirectory target s hbody
      | comment => cases h
      | inclusion =>
          dsimp only at h
          rw [includeTemplate_eq] at h
          split at h
          · cases h
            exact .inl rfl
          · rw [get_bind_apply] at h
            cases hinner : resolveInclude setup q.opened q.files (includeTarget s) with
            | error fault =>
                rw [hinner] at h
                cases h
                exact .inl (ofSection_of_resolveInclude hinner)
            | ok inner =>
                rw [hinner, ofExcept_ok_bind, note_bind_apply] at h
                exact .inr ⟨inner, rfl, rfl, h⟩

theorem handleText_error_cases (h : handleText setup enter text p = (.error e, after)) :
    (∃ n, checkNesting text = .error n ∧ e = .nesting n ∧ after = p) ∨
      ∃ before s rest q, scan text 1 = .ok (before ++ .block s :: rest) ∧
        before.forM (handleItem setup enter) p = (.ok (), q) ∧ checkNesting s.body = .ok () ∧
          handleSection setup enter s q = (.error e, after) := by
  cases hcheck : checkNesting text with
  | error n =>
      rw [handleText, hcheck] at h
      cases h
      exact .inl ⟨n, rfl, rfl, rfl⟩
  | ok _ =>
      obtain ⟨items, hscan, hsound, -⟩ := Scan.scan_of_checkNesting hcheck 1
      rw [handleText, hcheck, hscan, ofExcept_ok_bind, ofExcept_ok_bind] at h
      obtain ⟨before, item, rest, q, hsplit, hbefore, hitem⟩ := exists_of_forM_eq_error h
      subst hsplit
      cases item with
      | text line content => cases hitem
      | block s =>
          have hbody := hsound _ (List.mem_append_right before List.mem_cons_self)
          exact .inr ⟨before, s, rest, q, hscan, hbefore, hbody, hitem⟩

theorem openTemplate_cases (setup : Setup) (enter : Text → Processing Unit) (path : Text)
    (p : Progress) :
    (∃ operation other fault,
      openTemplate setup enter path p = (.error (.file operation other fault), p)) ∨
    (∃ file ∈ p.opened, openTemplate setup enter path p = (.error (.includeCycle file), p)) ∨
    ∃ file text, p.files.canonicalPath path = .ok file ∧ file ∉ p.opened ∧
      p.files.readText file = .ok text ∧
        openTemplate setup enter path p = whileOpen file (handleText setup enter text) p := by
  cases hfile : p.files.canonicalPath path with
  | error fault =>
      rw [openTemplate_eq]
      exact .inl ⟨_, _, _, bind_of_error (observe_of_error hfile _ _) _⟩
  | ok file =>
      by_cases hopened : file ∈ p.opened
      · rw [openTemplate_eq, bind_of_ok (observe_of_ok hfile _ _), get_bind_apply, if_pos hopened]
        exact .inr (.inl ⟨file, hopened, rfl⟩)
      · cases htext : p.files.readText file with
        | error fault =>
            rw [openTemplate_eq, bind_of_ok (observe_of_ok hfile _ _), get_bind_apply,
              if_neg hopened]
            exact .inl ⟨_, _, _, bind_of_error (observe_of_error htext _ _) _⟩
        | ok text =>
            exact .inr (.inr ⟨file, text, rfl, hopened, htext,
              openTemplate_of_read hfile hopened htext⟩)

/-- How an error comes out of the template under a path, and the files there are then. -/
inductive Leaves (setup : Setup) : Nat → Text → Progress → TemplateError → FileSystem → Prop
  | notRead {room : Nat} {path other : Text} {p : Progress} {operation : FileOperation}
      {fault : FileError} : Leaves setup room path p (.file operation other fault) p.files
  | cycle {room : Nat} {path file : Text} {p : Progress} :
      file ∈ p.opened → Leaves setup (room + 1) path p (.includeCycle file) p.files
  | nesting {room : Nat} {path file text : Text} {p : Progress} {n : NestingError} :
      p.files.canonicalPath path = .ok file → file ∉ p.opened →
        p.files.readText file = .ok text → checkNesting text = .error n →
          Leaves setup (room + 1) path p (.inTemplate file (.nesting n)) p.files
  | ofSection {room : Nat} {path file : Text} {p : Progress} {inside : TemplateError}
      {files : FileSystem} :
      p.files.canonicalPath path = .ok file → file ∉ p.opened → inside.ofSection →
        Leaves setup (room + 1) path p (.inTemplate file inside) files
  | included {room : Nat} {path file inner : Text} {p q : Progress} {s : Section}
      {inside : TemplateError} {files : FileSystem} :
      p.files.canonicalPath path = .ok file → file ∉ p.opened →
        ComesTo setup (processFileWithin setup room) path p s q → q.opened = file :: p.opened →
          setup.table.get? s.tag = some .inclusion →
            resolveInclude setup q.opened q.files (includeTarget s) = .ok inner →
              Leaves setup room inner (q.including s inner) inside files →
                Leaves setup (room + 1) path p (.inTemplate file inside) files

theorem opened_of_forM_handleItem {room : Nat} {items : List Item}
    (h : items.forM (handleItem setup (processFileWithin setup room)) p = (.ok (), q)) :
    q.opened = p.opened := by
  have hadmits := ClosesAgain.admits setup
  have hitem : ∀ item ∈ items,
      ClosesAgain.contract.Holds (handleItem setup (processFileWithin setup room) item) :=
    fun item _ => hadmits.handleItem (hadmits.processFileWithin room) item
  exact ((Contract.holds_forM hitem p).of_ok h).opened

theorem leaves_of_error {room : Nat} {path : Text}
    (h : processFileWithin setup room path p = (.error e, after)) :
    Leaves setup room path p e after.files := by
  induction room generalizing path p e after with
  | zero =>
      cases h
      exact .notRead
  | succ room ih =>
      rw [processFileWithin] at h
      rcases openTemplate_cases setup (processFileWithin setup room) path p with
        ⟨_, _, _, hopen⟩ | ⟨file, hopened, hopen⟩ | ⟨file, text, hfile, hopened, htext, hopen⟩
      · cases hopen.symm.trans h
        exact .notRead
      · cases hopen.symm.trans h
        exact .cycle hopened
      · rw [hopen, whileOpen_apply] at h
        rcases hrun : handleText setup (processFileWithin setup room) text (p.entering file)
          with ⟨inside | _, q⟩
        · rw [hrun] at h
          cases h
          rcases handleText_error_cases hrun with ⟨n, hcheck, rfl, rfl⟩ |
            ⟨before, s, rest, r, hscan, hbefore, hbody, hsection⟩
          · exact .nesting hfile hopened htext hcheck
          · rcases handleSection_error_cases hbody hsection with
              hlocal | ⟨inner, hhandler, hresolve, henter⟩
            · exact .ofSection hfile hopened hlocal
            · have hinner : Leaves setup room inner (r.including s inner) inside q.files :=
                ih henter
              exact .included hfile hopened ⟨file, text, before, rest, hfile, htext, hscan, hbefore⟩
                (opened_of_forM_handleItem hbefore) hhandler hresolve hinner
        · rw [hrun] at h
          cases h

end Processing

namespace TemplateError

variable {e : TemplateError}

theorem templateChain_of_ofSection (h : e.ofSection) : e.templateChain = [] := by
  cases e with
  | inTemplate path error => cases h
  | _ => rfl

theorem rootCause_of_ofSection (h : e.ofSection) : e.rootCause = e := by
  cases e with
  | inTemplate path error => cases h
  | _ => rfl

theorem rootCause_ne_inTemplate (e : TemplateError) (path : Text) (error : TemplateError) :
    e.rootCause ≠ .inTemplate path error := by
  induction e with
  | inTemplate _ _ ih => exact ih
  | _ => nofun

theorem message_inTemplate (path : Text) (error : TemplateError) :
    (inTemplate path error).message = path ++ (": " : Text) ++ error.message := rfl

theorem message_eq (e : TemplateError) :
    e.message =
      e.templateChain.flatMap (fun path => path ++ (": " : Text)) ++ e.rootCause.message := by
  induction e with
  | inTemplate path error ih =>
      rw [message_inTemplate, ih, templateChain, rootCause, List.flatMap_cons]
      exact (List.append_assoc _ _ _).symm
  | expansion => rfl
  | invalidMacro => rfl
  | nesting => rfl
  | includeNotFound => rfl
  | includeCycle => rfl
  | invalidSection => rfl
  | invalidDirective => rfl
  | file => rfl

end TemplateError

namespace Processing

/-- The canonical paths of templates of which each includes the next one at top level; the first
one has the given path. -/
inductive IncludeChain (setup : Setup) : Nat → Text → Progress → List Text → Prop
  | single {room : Nat} {path file : Text} {p : Progress} :
      p.files.canonicalPath path = .ok file → IncludeChain setup (room + 1) path p [file]
  | included {room : Nat} {path file inner : Text} {p q : Progress} {s : Section}
      {chain : List Text} :
      p.files.canonicalPath path = .ok file →
        ComesTo setup (processFileWithin setup room) path p s q →
          setup.table.get? s.tag = some .inclusion →
            resolveInclude setup q.opened q.files (includeTarget s) = .ok inner →
              IncludeChain setup room inner (q.including s inner) chain →
                IncludeChain setup (room + 1) path p (file :: chain)

namespace Leaves

variable {setup : Setup} {room : Nat} {path : Text} {p : Progress} {e : TemplateError}
  {files : FileSystem}

theorem nodup_chain (h : Leaves setup room path p e files) :
    e.templateChain.Nodup ∧ ∀ file ∈ e.templateChain, file ∉ p.opened := by
  induction h with
  | notRead => exact ⟨List.nodup_nil, nofun⟩
  | cycle => exact ⟨List.nodup_nil, nofun⟩
  | nesting _ hopened =>
      refine ⟨List.nodup_cons.mpr ⟨List.not_mem_nil, List.nodup_nil⟩, fun other hmem => ?_⟩
      rwa [List.mem_singleton.mp hmem]
  | ofSection _ hopened hlocal =>
      rw [TemplateError.templateChain, TemplateError.templateChain_of_ofSection hlocal]
      refine ⟨List.nodup_cons.mpr ⟨List.not_mem_nil, List.nodup_nil⟩, fun other hmem => ?_⟩
      rwa [List.mem_singleton.mp hmem]
  | @included _ _ file _ _ q _ _ _ _ hopened _ hq _ _ _ ih =>
      obtain ⟨hnodup, hnew⟩ := ih
      have hnew' : ∀ other ∈ _, other ∉ file :: _ := fun other hmem => hq ▸ hnew other hmem
      refine ⟨List.nodup_cons.mpr ⟨fun hmem => ?_, hnodup⟩, fun other hmem => ?_⟩
      · exact hnew' _ hmem List.mem_cons_self
      · rcases List.mem_cons.mp hmem with rfl | hinside
        · exact hopened
        · exact fun hold => hnew' _ hinside (List.mem_cons_of_mem _ hold)

theorem includeChain (h : Leaves setup room path p e files) (hne : e.templateChain ≠ []) :
    IncludeChain setup room path p e.templateChain := by
  induction h with
  | notRead => cases hne rfl
  | cycle => cases hne rfl
  | nesting hfile => exact .single hfile
  | ofSection hfile _ hlocal =>
      rw [TemplateError.templateChain, TemplateError.templateChain_of_ofSection hlocal]
      exact .single hfile
  | @included _ _ _ _ _ _ _ inside _ hfile _ hcomes _ hhandler hresolve _ ih =>
      rw [TemplateError.templateChain]
      rcases hchain : inside.templateChain with _ | ⟨next, rest⟩
      · exact .single hfile
      · rw [hchain] at ih
        exact .included hfile hcomes hhandler hresolve (ih (List.cons_ne_nil _ _))

theorem cycle_mem {file : Text} (h : Leaves setup room path p e files)
    (hcause : e.rootCause = .includeCycle file) : file ∈ e.templateChain ∨ file ∈ p.opened := by
  induction h with
  | notRead => cases hcause
  | cycle hopened =>
      cases hcause
      exact .inr hopened
  | nesting => cases hcause
  | ofSection _ _ hlocal =>
      rw [TemplateError.rootCause, TemplateError.rootCause_of_ofSection hlocal] at hcause
      subst hcause
      cases hlocal
  | included _ _ _ hq _ _ _ ih =>
      rcases ih hcause with hmem | hmem
      · exact .inl (List.mem_cons_of_mem _ hmem)
      · rw [Progress.including, hq] at hmem
        rcases List.mem_cons.mp hmem with rfl | hold
        · exact .inl List.mem_cons_self
        · exact .inr hold

theorem nesting_last {n : NestingError} (h : Leaves setup room path p e files)
    (hcause : e.rootCause = .nesting n) :
    ∃ last text, e.templateChain.getLast? = some last ∧ files.readText last = .ok text ∧
      checkNesting text = .error n := by
  induction h with
  | notRead => cases hcause
  | cycle => cases hcause
  | nesting _ _ htext hcheck =>
      cases hcause
      exact ⟨_, _, rfl, htext, hcheck⟩
  | ofSection _ _ hlocal =>
      rw [TemplateError.rootCause, TemplateError.rootCause_of_ofSection hlocal] at hcause
      subst hcause
      cases hlocal
  | included _ _ _ _ _ _ _ ih =>
      obtain ⟨last, text, hlast, htext, hcheck⟩ := ih hcause
      refine ⟨last, text, ?_, htext, hcheck⟩
      rw [TemplateError.templateChain, List.getLast?_cons, hlast]
      rfl

end Leaves

/-- The templates that an error has come through are distinct, and each of them includes the next
one; what failed is no error out of a template; a file that must not be entered again is one of
them; an error of the nesting is that of the text of the last one; and the message names them all
before what failed. -/
theorem error_chain_is_an_include_chain {setup : Setup} {path : Text} {p after : Progress}
    {e : TemplateError} (hopened : p.opened = [])
    (h : processFile setup path p = (.error e, after)) :
    e.templateChain.Nodup ∧
    (e.templateChain ≠ [] → IncludeChain setup openLimit path p e.templateChain) ∧
    (∀ file error, e.rootCause ≠ .inTemplate file error) ∧
    (∀ file, e.rootCause = .includeCycle file → file ∈ e.templateChain) ∧
    (∀ n, e.rootCause = .nesting n → ∃ last text, e.templateChain.getLast? = some last ∧
      after.files.readText last = .ok text ∧ checkNesting text = .error n) ∧
    e.message =
      e.templateChain.flatMap (fun path => path ++ (": " : Text)) ++ e.rootCause.message := by
  rw [processFile] at h
  have hleaves := leaves_of_error h
  refine ⟨hleaves.nodup_chain.1, hleaves.includeChain, e.rootCause_ne_inTemplate, ?_,
    fun _ => hleaves.nesting_last, e.message_eq⟩
  intro file hcause
  rcases hleaves.cycle_mem hcause with hmem | hmem
  · exact hmem
  · rw [hopened] at hmem
    cases hmem

/-- A template that includes another one, in which a section has no end. -/
def includesBroken : Progress where
  files := {
    root := [("sub", .directory [("u.tt", .file (.text "@dir a\n") false)]),
      ("t.tt", .file (.text "@include sub/u.tt @include_\n") false)]
    workingDirectory := [] }

def brokenEnd : TemplateError :=
  .inTemplate "/t.tt" (.inTemplate "/sub/u.tt" (.nesting (.unterminated [⟨"dir", 1⟩])))

theorem one_lt_openLimit : 1 < openLimit := by
  unfold openLimit
  generalize FileSystem.maxPathBytes = bytes
  exact Nat.lt_of_le_of_lt (Nat.succ_pos bytes) (Nat.lt_pow_self (by decide))

theorem processFile_includesBroken :
    (processFile { outputRoot := "out" } "t.tt" includesBroken).1 = .error brokenEnd := by
  obtain ⟨room, hroom⟩ := Nat.exists_eq_add_of_lt one_lt_openLimit
  simp only [processFile, hroom, Nat.add_comm 1 room, processFileWithin]
  delta openTemplate handleText handleItem handleSection includeTemplate
  cbv

theorem broken_include_is_named_last :
    ∃ after, processFile { outputRoot := "out" } "t.tt" includesBroken =
        (.error brokenEnd, after) ∧
      IncludeChain { outputRoot := "out" } openLimit "t.tt" includesBroken
        ["/t.tt", "/sub/u.tt"] ∧
      (∃ text, after.files.readText "/sub/u.tt" = .ok text ∧
        checkNesting text = .error (.unterminated [⟨"dir", 1⟩])) ∧
      brokenEnd.message =
        "/t.tt: /sub/u.tt: 'dir' section doesn't have end of section (at 1)" := by
  have hresult := processFile_includesBroken
  rcases hrun : processFile { outputRoot := "out" } "t.tt" includesBroken with ⟨result, after⟩
  rw [hrun] at hresult
  subst hresult
  obtain ⟨-, hchain, -, -, hlast, hmessage⟩ := error_chain_is_an_include_chain rfl hrun
  obtain ⟨last, text, hmem, htext, hcheck⟩ := hlast _ rfl
  cases hmem
  refine ⟨after, rfl, hchain (List.cons_ne_nil _ _), ⟨text, htext, hcheck⟩, ?_⟩
  rw [hmessage]
  decide

end Processing

end TemplateSuite
