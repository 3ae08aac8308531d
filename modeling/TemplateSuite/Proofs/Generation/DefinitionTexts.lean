import TemplateSuite.Proofs.Generation.Following
import TemplateSuite.Proofs.Generation.Inclusion
import TemplateSuite.Proofs.Macro.Environment
import TemplateSuite.Proofs.Template.DefinitionText

namespace TemplateSuite.Definition

open StateAction Processing

variable {setup : Setup} {m : Macro} {macros : List Macro}

theorem handleItem_sectionAt (enter : Text → Processing Unit) (htable : setup.table = .standard)
    (h : m.IsMade) (hbody : IsPlainBody m.body) (line : Nat) (p : Progress) :
    ∃ events, handleItem setup enter (.block (sectionAt line m)) p =
      (.ok (), { p with macros := p.macros.define m, events := p.events ++ events }) := by
  have hhandler : setup.table.get? (sectionAt line m).tag = some .definition := by
    rw [htable]
    rfl
  obtain ⟨events, -, hdefine⟩ := defineMacro_of_ok (ofSection_sectionAt h hbody line) p
  refine ⟨.handlingSection "def" line :: events, ?_⟩
  rw [handleItem, handleSection, hhandler]
  simp only
  rw [note_bind_apply]
  refine (hdefine { p with events := p.events ++ [.handlingSection "def" line] } rfl).trans ?_
  rw [List.append_assoc]
  rfl

theorem forM_handleItem {items : List Item} (enter : Text → Processing Unit)
    (htable : setup.table = .standard) (h : ∀ m ∈ macros, m.IsMade ∧ IsPlainBody m.body)
    (hitems : List.Forall₂ (fun m item => ∃ line, item = .block (sectionAt line m)) macros items)
    (p : Progress) :
    ∃ events, items.forM (handleItem setup enter) p =
      (.ok (), { p with macros := p.macros.extend macros, events := p.events ++ events }) := by
  induction hitems generalizing p with
  | nil => exact ⟨[], by rw [List.append_nil]; rfl⟩
  | cons hitem _ ih =>
      obtain ⟨line, rfl⟩ := hitem
      obtain ⟨⟨hmade, hbody⟩, hrest⟩ := List.forall_mem_cons.mp h
      obtain ⟨first, hfirst⟩ := handleItem_sectionAt enter htable hmade hbody line p
      obtain ⟨events, hevents⟩ := ih hrest _
      refine ⟨first ++ events, ?_⟩
      rw [forM_cons, bind_of_ok hfirst, hevents, List.append_assoc]
      rfl

/-- Macros written as a text of definitions come back when the text is processed: the environment is
extended by them in order, the last macro of a name counts, and nothing else is done. -/
theorem processText_renderAll (htable : setup.table = .standard)
    (h : ∀ m ∈ macros, m.IsMade ∧ IsPlainBody m.body) (p : Progress) :
    (∃ events, processText setup (renderAll macros) p =
      (.ok (), { p with macros := p.macros.extend macros, events := p.events ++ events })) ∧
      ∀ name, (p.macros.extend macros).find? name =
        (Environment.lastOf? macros name).or (p.macros.find? name) := by
  obtain ⟨items, hscan, hitems⟩ := scan_renderAll h 1
  refine ⟨?_, p.macros.find?_extend macros⟩
  rw [processText, handleText_of_scan (checkNesting_renderAll h) hscan]
  exact forM_handleItem _ htable h hitems p

theorem second_definition_replaces_first :
    (∀ m ∈ [⟨"$one", "1", []⟩, ⟨"$add", "$x +\n\n$y", ["$x", "$y"]⟩, ⟨"$one", [], []⟩],
      Macro.IsMade m ∧ IsPlainBody m.body) ∧
      ∃ events, processText { outputRoot := "out" }
          "@def $one\n1\n@def_\n@def $add($x, $y)\n$x +\n\n$y\n@def_\n@def $one\n\n@def_\n"
          { files := ⟨[], []⟩, macros := ⟨[⟨"$old", "0", []⟩]⟩ } =
        (.ok (), { files := ⟨[], []⟩, events, macros :=
          ⟨[⟨"$add", "$x +\n\n$y", ["$x", "$y"]⟩, ⟨"$old", "0", []⟩, ⟨"$one", [], []⟩]⟩ }) := by
  have hmacros : ∀ m ∈ [⟨"$one", "1", []⟩, ⟨"$add", "$x +\n\n$y", ["$x", "$y"]⟩, ⟨"$one", [], []⟩],
      Macro.IsMade m ∧ IsPlainBody m.body := by
    simp only [List.forall_mem_cons]
    exact ⟨⟨⟨"one", [], rfl⟩, by decide, by decide, by decide⟩,
      ⟨⟨"add", ["x", "y"], rfl⟩, by decide, by decide, by decide⟩,
      ⟨⟨"one", [], rfl⟩, by decide, by decide, by decide⟩, nofun⟩
  obtain ⟨⟨events, hrun⟩, -⟩ := @processText_renderAll { outputRoot := "out" } _ rfl hmacros
    { files := ⟨[], []⟩, macros := ⟨[⟨"$old", "0", []⟩]⟩ }
  exact ⟨hmacros, events, hrun⟩

end TemplateSuite.Definition
