import Mathlib
import TemplateSuite.Proofs.Generation.Alike
import TemplateSuite.Proofs.Template.Concatenation

namespace TemplateSuite

/-- The line that includes the file with this path. -/
def includeLine (target : Text) : Text :=
  '@' :: (("include" : Text) ++ ' ' :: (target ++ ' ' :: Line.closeMarker "include"))

/-- Two runs have the same effect: both succeed or both fail, and they leave the same macros, files
and record. -/
structure SameEffect (x y : Except TemplateError Unit × Progress) : Prop where
  ended : x.1.isOk = y.1.isOk
  macros : x.2.macros = y.2.macros
  files : x.2.files = y.2.files
  generated : x.2.generated = y.2.generated

theorem SectionTable.mem_of_standard_get? {tag : Text} {handler : Handler}
    (h : standard.get? tag = some handler) :
    (tag, handler) ∈ [(("comment" : Text), Handler.comment), (("include" : Text), Handler.inclusion),
      (("dir" : Text), Handler.directory), (("def" : Text), Handler.definition)] := by
  obtain ⟨before, after, hsplit, -⟩ := List.lookup_eq_some_iff.mp h
  have hmem : (tag, handler) ∈ standard.handlers := hsplit ▸ by simp
  have hhandlers : standard.handlers =
      [(("comment" : Text), Handler.comment), (("include" : Text), Handler.inclusion),
        (("dir" : Text), Handler.directory), (("def" : Text), Handler.definition)] := by decide
  rwa [hhandlers] at hmem

theorem SectionTable.standard_get?_eq_inclusion {tag : Text} :
    standard.get? tag = some .inclusion ↔ tag = ("include" : Text) := by
  constructor
  · intro h
    simpa using mem_of_standard_get? h
  · rintro rfl
    rfl

theorem SectionTable.standard_get?_eq_definition {tag : Text}
    (h : standard.get? tag = some .definition) : tag = ("def" : Text) := by
  simpa using mem_of_standard_get? h

theorem SectionTable.standard_get?_eq_directory {tag : Text}
    (h : standard.get? tag = some .directory) : tag = ("dir" : Text) := by
  simpa using mem_of_standard_get? h

section IncludeLine

variable {target : Text}

theorem isTag_include : Line.IsTag "include" :=
  ⟨List.cons_ne_nil _ _, List.all_eq_true.mp rfl⟩

theorem newline_not_mem_includeLine (h : '\n' ∉ target) : '\n' ∉ includeLine target := by
  intro hmem
  simp only [includeLine, List.mem_cons, List.mem_append] at hmem
  rcases hmem with hat | htag | hspace | htarget | hspace | hmarker
  · exact absurd hat (by decide)
  · exact absurd htag (by decide)
  · exact absurd hspace (by decide)
  · exact h htarget
  · exact absurd hspace (by decide)
  · exact Line.newline_not_mem_closeMarker isTag_include hmarker

theorem lines_includeLine (h : '\n' ∉ target) :
    Text.lines (includeLine target ++ ['\n']) = [Text.dropReturn (includeLine target)] := by
  have hnil : Text.lines [] = [] := rfl
  rw [Text.lines_append_newline, List.splitOn_eq_singleton (newline_not_mem_includeLine h), hnil]
  rfl

theorem classify_includeLine (h : Text.trim target = target) :
    Line.classify (Text.dropReturn (includeLine target)) = .opening "include" target true := by
  rw [Line.classify_dropReturn]
  exact Line.classify_selfClosing isTag_include h

theorem checkNesting_includeLine (hnewline : '\n' ∉ target) (htrim : Text.trim target = target) :
    checkNesting (includeLine target ++ ['\n']) = .ok () := by
  rw [Nesting.checkNesting_eq_ok_iff_nested, lines_includeLine hnewline]
  refine .plain ?_ .nil
  rw [classify_includeLine htrim]
  rfl

theorem scan_includeLine (hnewline : '\n' ∉ target) (htrim : Text.trim target = target)
    (number : Nat) :
    scan (includeLine target ++ ['\n']) number =
      .ok [.block ⟨"include", target, [], number⟩] := by
  rw [scan, lines_includeLine hnewline,
    Scan.scanLines_cons_selfClosing (classify_includeLine htrim), scanLines]
  rfl

end IncludeLine

namespace Processing

open StateAction

variable {setup : Setup} {p q : Progress}

theorem RelatedAt.sameEffect {exact : Prop} {left right : List Text} {x y : Processing Unit}
    (h : RelatedAt exact left right Eq x y p q) : SameEffect (x p) (y q) := by
  cases h with
  | done hx hy hR halike =>
      rw [hx, hy]
      exact ⟨rfl, halike.macros, halike.files, halike.generated⟩
  | stopped hx hy he halike =>
      rw [hx, hy]
      exact ⟨rfl, halike.macros, halike.files, halike.generated⟩

theorem handleText_of_scan {enter : Text → Processing Unit} {text : Text} {items : List Item}
    (hcheck : checkNesting text = .ok ()) (hscan : scan text 1 = .ok items) :
    handleText setup enter text = items.forM (handleItem setup enter) := by
  rw [handleText, hcheck, hscan, ofExcept_ok_bind, ofExcept_ok_bind]

/-- After a first text has been processed, what is left to do are the elements of the others. -/
theorem processText_append {first middle last : Text} {elements rest : List Item}
    (hfirst : checkNesting first = .ok ()) (hmiddle : checkNesting middle = .ok ())
    (hlast : checkNesting last = .ok ()) (hfirstLine : first.EndsWithLine)
    (hmiddleLine : middle.EndsWithLine) (hrun : processText setup first p = (.ok (), q))
    (helements : scan middle (1 + (Text.lines first).length) = .ok elements)
    (hrest : scan last (1 + (Text.lines first).length + (Text.lines middle).length) = .ok rest) :
    processText setup (first ++ (middle ++ last)) p =
      (elements.forM (handleItem setup (processFile setup)) >>= fun _ =>
        rest.forM (handleItem setup (processFile setup))) q := by
  obtain ⟨items, hitems, -, -⟩ := Scan.scan_of_checkNesting hfirst 1
  have hcheck : checkNesting (first ++ (middle ++ last)) = .ok () :=
    Nesting.checkNesting_append hfirstLine hfirst
      (Nesting.checkNesting_append hmiddleLine hmiddle hlast)
  have hscan : scan (first ++ (middle ++ last)) 1 = .ok (items ++ (elements ++ rest)) := by
    rw [Scan.scan_append hfirstLine hfirst, hitems, Except.bind,
      Scan.scan_append hmiddleLine hmiddle, helements, Except.bind, hrest]
    rfl
  rw [processText, handleText_of_scan hfirst hitems] at hrun
  rw [processText, handleText_of_scan hcheck hscan, forM_append, bind_of_ok hrun, forM_append]

theorem related_whileOpen_text {left right : List Text} {file : Text} {x y : Processing Unit}
    (h : Related False (file :: left) right Eq x y) :
    Related False left right Eq (whileOpen file x) y := by
  intro p q halike
  have hentering : Alike False (file :: left) right (p.entering file) q := {
    halike with
    opened_left := congrArg (file :: ·) halike.opened_left
    events := False.elim }
  have hleaving : ∀ {p' q'}, Alike False (file :: left) right p' q' →
      Alike False left right (p'.leaving file) q' := fun hafter => {
    hafter with
    opened_left := congrArg List.tail hafter.opened_left
    events := False.elim }
  cases h _ _ hentering with
  | @done a b p' q' hx hy hR hafter =>
      refine .done (a := a) ?_ hy hR (hleaving hafter)
      rw [whileOpen_apply, hx]
      rfl
  | @stopped e e' p' q' hx hy he hafter =>
      refine .stopped (e := .inTemplate file e) ?_ hy False.elim (hleaving hafter)
      rw [whileOpen_apply, hx]
      rfl

theorem related_openTemplate_elements {same : List Text} {file path text : Text}
    {enter enter' : Text → Processing Unit} {elements : List Item} {number : Nat}
    {p q : Progress}
    (hfile : p.files.canonicalPath path = .ok file) (hclosed : file ∉ p.opened)
    (hread : p.files.readText file = .ok text) (hcheck : checkNesting text = .ok ())
    (hnone : ∀ items, scan text 1 = .ok items → ∀ s, .block s ∈ items →
      setup.table.get? s.tag ≠ some .inclusion)
    (helements : scan text number = .ok elements) (halike : Alike False same same p q) :
    RelatedAt False same same Eq (openTemplate setup enter path)
      (elements.forM (handleItem setup enter')) p q := by
  obtain ⟨items, hitems, -, -⟩ := Scan.scan_of_checkNesting hcheck 1
  have hpairs : List.Forall₂ (Item.Alike False) items elements :=
    Scan.elements_alike False.elim hitems helements
  have hinner : Related False (file :: same) same Eq (handleText setup enter text)
      (elements.forM (handleItem setup enter')) := by
    rw [handleText_of_scan hcheck hitems, handleItem_eq, handleItem_eq]
    refine related_forM hpairs fun item hmem item' hitem => ?_
    refine related_handleItemWith hitem fun s s' hs _ htag => ?_
    exact absurd htag (hnone items hitems s (hs ▸ hmem))
  refine (related_whileOpen_text hinner p q halike).congr ?_ rfl
  rw [openTemplate_eq, bind_of_ok (observe_of_ok hfile _ _), get_bind_apply, if_neg hclosed,
    bind_of_ok (observe_of_ok hread _ _)]

theorem handleItem_include {target path : Text} {p : Progress} (number : Nat)
    (htable : setup.table = .standard) (hne : target ≠ []) (htrim : Text.trim target = target)
    (hpath : resolveInclude setup p.opened p.files target = .ok path) :
    ∃ q room, q.opened = p.opened ∧ Alike False p.opened p.opened q p ∧
      handleItem setup (processFile setup) (.block ⟨"include", target, [], number⟩) p =
        openTemplate setup (processFileWithin setup room) path q := by
  obtain ⟨room, hroom⟩ := processFile_eq setup
  have hhandler : setup.table.get? ("include" : Text) = some .inclusion := by
    rw [htable]
    rfl
  have htarget : includeTarget ⟨"include", target, [], number⟩ = target := by
    simp [includeTarget, htrim, hne]
  refine ⟨{ p with events := p.events ++ [.handlingSection "include" number] ++
    [.including path number] }, room, rfl, ⟨rfl, rfl, rfl, rfl, rfl, False.elim⟩, ?_⟩
  simp only [handleItem, handleSection, hhandler]
  rw [note_bind_apply, includeTemplate_apply, includeAlong, htarget, if_neg hne, get_bind_apply,
    hpath, ofExcept_ok_bind, note_bind_apply, hroom]

end Processing

open Processing in
/-- Including a file is writing its text in the place of the include: after a text that succeeds,
a line that includes a file and the text of that file have the same effect, whatever text comes after
them. The file must be found, readable and not open, and its text may include nothing itself. -/
theorem include_line_has_the_effect_of_the_text {setup : Setup} {p q : Progress}
    {first text last target path file : Text} (htable : setup.table = .standard)
    (hfirst : checkNesting first = .ok ()) (htext : checkNesting text = .ok ())
    (hlast : checkNesting last = .ok ()) (hfirstLine : first.EndsWithLine)
    (htextLine : text.EndsWithLine)
    (hnone : ∀ items, scan text 1 = .ok items → ∀ s, .block s ∈ items → s.tag ≠ ("include" : Text))
    (hne : target ≠ []) (htrim : Text.trim target = target) (hnewline : '\n' ∉ target)
    (hrun : processText setup first p = (.ok (), q))
    (hpath : resolveInclude setup q.opened q.files target = .ok path)
    (hfile : q.files.canonicalPath path = .ok file) (hread : q.files.readText file = .ok text)
    (hclosed : file ∉ q.opened) :
    SameEffect (processText setup (first ++ includeLine target ++ '\n' :: last) p)
      (processText setup (first ++ text ++ last) p) := by
  have hline : checkNesting (includeLine target ++ ['\n']) = .ok () :=
    checkNesting_includeLine hnewline htrim
  have hlineEnd : (includeLine target ++ ['\n']).EndsWithLine := .inr (List.suffix_append _ _)
  obtain ⟨elements, helements, -, -⟩ :=
    Scan.scan_of_checkNesting htext (1 + (Text.lines first).length)
  obtain ⟨rest, hrest, -, -⟩ := Scan.scan_of_checkNesting hlast
    (1 + (Text.lines first).length + (Text.lines (includeLine target ++ ['\n'])).length)
  obtain ⟨rest', hrest', -, -⟩ := Scan.scan_of_checkNesting hlast
    (1 + (Text.lines first).length + (Text.lines text).length)
  have hleft := processText_append hfirst hline hlast hfirstLine hlineEnd hrun
    (scan_includeLine hnewline htrim _) hrest
  have hright := processText_append hfirst htext hlast hfirstLine htextLine hrun helements hrest'
  -- the line that includes the file against the elements of its text
  have hmiddle : RelatedAt False q.opened q.opened Eq
      ([Item.block ⟨"include", target, [], 1 + (Text.lines first).length⟩].forM
        (handleItem setup (processFile setup)))
      (elements.forM (handleItem setup (processFile setup))) q q := by
    obtain ⟨entered, room, hopened, halike, hinclude⟩ :=
      handleItem_include (1 + (Text.lines first).length) htable hne htrim hpath
    rw [← halike.files] at hfile hread
    rw [← hopened] at hclosed
    rw [forM_singleton]
    refine (related_openTemplate_elements hfile hclosed hread htext ?_ helements halike).congr
      hinclude rfl
    intro items hitems s hs htag
    rw [htable, SectionTable.standard_get?_eq_inclusion] at htag
    exact hnone items hitems s hs htag
  -- the elements after it have other numbers, but the same templates are open
  have hafter : Related False q.opened q.opened Eq
      (rest.forM (handleItem setup (processFile setup)))
      (rest'.forM (handleItem setup (processFile setup))) :=
    related_elements (Scan.elements_alike False.elim hrest hrest') (related_processFile q.opened)
  have hsame := (relatedAt_bind hmiddle fun _ _ _ => hafter).sameEffect
  rw [← hleft, ← hright] at hsame
  simpa only [List.append_assoc, List.singleton_append] using hsame

/-- A file with a definition. -/
def besideADefinition : Progress where
  files := {
    root := [("t.tt", .file (.text "@def $b\nB\n@def_\n") false)]
    workingDirectory := [] }

theorem included_definition_serves_the_text_after_it :
    SameEffect
      (Processing.processText ⟨"out", ["."], .standard⟩
        (("@def $a\nA\n@def_\n" : Text) ++ includeLine "t.tt" ++
          '\n' :: ("@dir d\n@file x.c $b @file_\n@dir_\n" : Text)) besideADefinition)
      (Processing.processText ⟨"out", ["."], .standard⟩
        (("@def $a\nA\n@def_\n" : Text) ++ ("@def $b\nB\n@def_\n" : Text) ++
          ("@dir d\n@file x.c $b @file_\n@dir_\n" : Text)) besideADefinition) := by
  have hrun : Processing.processText ⟨"out", ["."], .standard⟩ "@def $a\nA\n@def_\n"
      besideADefinition = (.ok (), { besideADefinition with
        macros := ⟨[⟨"$a", "A", []⟩]⟩
        events := [.handlingSection "def" 1, .defined "$a" 0 1] }) := by cbv
  have hscan : scan "@def $b\nB\n@def_\n" 1 = .ok [.block ⟨"def", "$b", "B", 1⟩] := by cbv
  have hnone : ∀ items, scan "@def $b\nB\n@def_\n" 1 = .ok items →
      ∀ s, .block s ∈ items → s.tag ≠ ("include" : Text) := by
    intro items hitems s hs
    rw [hscan] at hitems
    cases hitems
    obtain rfl : s = ⟨"def", "$b", "B", 1⟩ := by simpa using hs
    decide
  have hpath : Processing.resolveInclude ⟨"out", ["."], .standard⟩ besideADefinition.opened
      besideADefinition.files "t.tt" = .ok "./t.tt" := by cbv
  have hfile : besideADefinition.files.canonicalPath "./t.tt" = .ok "/t.tt" := by cbv
  have hread : besideADefinition.files.readText "/t.tt" = .ok "@def $b\nB\n@def_\n" := by cbv
  exact include_line_has_the_effect_of_the_text rfl (by decide) (by decide) (by decide)
    (by decide) (by decide) hnone (by decide) (by decide) (by decide) hrun hpath hfile hread
    (by decide)

end TemplateSuite
