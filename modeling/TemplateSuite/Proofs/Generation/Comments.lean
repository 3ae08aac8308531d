import Mathlib
import TemplateSuite.Proofs.Generation.Inclusion
import TemplateSuite.Proofs.Template.CommentFilter

namespace TemplateSuite

/-- The section is one of the sections at the top level of the text. -/
def Section.StandsIn (s : Section) (text : Text) : Prop :=
  ∃ number items, scan text number = .ok items ∧ .block s ∈ items

/-- The section is met when a directory is filled as the text says. -/
inductive FillsDirectory : Text → Section → Prop
  | top {body : Text} {s : Section} : s.StandsIn body → FillsDirectory body s
  | nested {body : Text} {d s : Section} :
      d.StandsIn body → d.tag = "dir" → FillsDirectory d.body s → FillsDirectory body s

namespace Processing

open StateAction

variable {left right : List Text} {setup : Setup}

/-- The action does nothing that is not only told. -/
def Quiet (x : Processing Unit) : Prop :=
  ∀ p, ∃ events, x p = (.ok (), { p with events })

theorem quiet_pure : Quiet (pure ()) :=
  fun p => ⟨p.events, rfl⟩

theorem quiet_note (event : Event) : Quiet (note event) :=
  fun p => ⟨p.events ++ [event], rfl⟩

theorem related_quiet_left {x y z : Processing Unit} (hx : Quiet x)
    (h : Related False left right Eq y z) :
    Related False left right Eq (x >>= fun _ => y) z := by
  intro p q halike
  obtain ⟨events, hrun⟩ := hx p
  have hafter : Alike False left right { p with events } q := { halike with events := False.elim }
  exact (h _ q hafter).congr (bind_of_ok hrun _) rfl

theorem related_quiet_right {x y z : Processing Unit} (hx : Quiet x)
    (h : Related False left right Eq y z) :
    Related False left right Eq y (x >>= fun _ => z) := by
  intro p q halike
  obtain ⟨events, hrun⟩ := hx q
  have hafter : Alike False left right p { q with events } := { halike with events := False.elim }
  exact (h p _ hafter).congr rfl (bind_of_ok hrun _)

/-- Elements that are left out make no difference if they are handled quietly. -/
theorem related_forM_thinned {f g : Item → Processing Unit} {items items' : List Item}
    (h : Thinned items items') (hf : ∀ item, item.Idle → Quiet (f item))
    (hg : ∀ item, item.Idle → Quiet (g item))
    (hboth : ∀ s s', .block s ∈ items → s.Filtered s' →
      Related False left right Eq (f (.block s)) (g (.block s'))) :
    Related False left right Eq (items.forM f) (items'.forM g) := by
  induction h with
  | nil => exact related_pure rfl
  | left hidle _ ih =>
      rw [forM_cons]
      exact related_quiet_left (hf _ hidle) (ih fun s s' hs => hboth s s' (List.mem_cons_of_mem _ hs))
  | right hidle _ ih =>
      rw [forM_cons]
      exact related_quiet_right (hg _ hidle) (ih hboth)
  | both hfiltered _ ih =>
      rw [forM_cons, forM_cons]
      exact related_bind (hboth _ _ List.mem_cons_self hfiltered) fun _ _ _ =>
        ih fun s s' hs => hboth s s' (List.mem_cons_of_mem _ hs)

theorem quiet_fillItem {item : Item} (h : item.Idle) (fill : Text → Section → Processing Unit)
    (target : Text) : Quiet (fillItem fill target item) := by
  cases h with
  | text line content =>
      rw [fillItem]
      split
      · exact quiet_pure
      · exact quiet_note _
  | @comment s htag =>
      rw [fillItem, if_neg (by rw [htag]; decide), if_pos htag]
      exact quiet_pure

theorem childDirectory_filtered {s s' : Section} (h : s.Filtered s') (parent : Text) :
    childDirectory parent s' = childDirectory parent s := by
  simp only [childDirectory, h.argument_eq]

theorem related_childDirectory_bind {s s' : Section} (h : s.Filtered s') (parent : Text)
    (wrap wrap' : SectionFault → TemplateError) {f g : Text → Processing Unit}
    (hfg : ∀ directory, Related False left right Eq (f directory) (g directory)) :
    Related False left right Eq (ofExcept wrap (childDirectory parent s) >>= f)
      (ofExcept wrap' (childDirectory parent s') >>= g) := by
  rw [childDirectory_filtered h]
  refine related_bind (related_ofExcept (sameEnd_mapError False.elim _)) fun directory _ heq => ?_
  subst heq
  exact hfg directory

theorem related_generateFile_filtered {s s' : Section} (h : s.Filtered s')
    (huntouched : s.HasNoComment ∧ s.HasNoReturn) (target : Text) :
    Related False left right Eq (generateFile target s) (generateFile target s') := by
  have hbody := h.body_eq huntouched.1 huntouched.2
  have htag := h.tag_eq
  have hargument := h.argument_eq
  obtain ⟨tag, argument, body, number⟩ := s
  obtain ⟨tag', argument', body', number'⟩ := s'
  cases htag
  cases hargument
  cases hbody
  exact related_generateFile False.elim target tag argument body

theorem related_fillDirectory_filtered {s s' : Section} (h : s.Filtered s')
    (hfiles : ∀ f, FillsDirectory s.body f → f.tag = "file" → f.HasNoComment ∧ f.HasNoReturn)
    (target : Text) :
    Related False left right Eq (fillDirectory target s) (fillDirectory target s') := by
  induction s using Section.induction generalizing s' target with
  | step s ih =>
      rw [fillDirectory_eq, fillDirectory_eq]
      refine related_bind (related_recreateDirectory target) fun _ _ _ =>
        related_bind (related_note fun _ => rfl) fun _ _ _ => ?_
      obtain ⟨items, items', hscan, hscan', hitems⟩ := h.thinned_scan s.bodyLine s'.bodyLine
      rw [hscan, hscan', ofExcept_ok_bind, ofExcept_ok_bind]
      refine related_forM_thinned hitems (fun item hidle => quiet_fillItem hidle _ target)
        (fun item hidle => quiet_fillItem hidle _ target) fun inner inner' hmem hinner => ?_
      have hstands : inner.StandsIn s.body := ⟨_, items, hscan, hmem⟩
      rw [fillItem, fillItem, hinner.tag_eq]
      by_cases hfile : inner.tag = ("file" : Text)
      · rw [if_pos hfile, if_pos hfile]
        exact related_generateFile_filtered hinner (hfiles inner (.top hstands) hfile) target
      · rw [if_neg hfile, if_neg hfile]
        split
        · exact related_pure rfl
        · split
          · rename_i hdirectory
            refine related_childDirectory_bind hinner target _ _ fun nested => ?_
            exact ih hscan hmem hinner
              (fun f hf => hfiles f (.nested hstands hdirectory hf)) nested
          · exact related_note False.elim

theorem quiet_handleItem {item : Item} (h : item.Idle) (htable : setup.table = .standard)
    (enter : Text → Processing Unit) : Quiet (handleItem setup enter item) := by
  cases h with
  | text line content => exact quiet_pure
  | @comment s htag =>
      intro p
      have hhandler : setup.table.get? s.tag = some .comment := by
        rw [htable, htag]
        rfl
      refine ⟨p.events ++ [.handlingSection s.tag s.line], ?_⟩
      simp only [handleItem, handleSection, hhandler]
      rfl

theorem related_defineMacro_filtered {s s' : Section} (h : s.Filtered s')
    (hblank : ¬ s.EndsInBareBlank)
    (hreturns : Text.NoReturns (Comment.keep 0 (Text.lines s.body))) :
    Related False left right Eq (defineMacro s) (defineMacro s') := by
  have hbody := h.stripComments_eq hblank hreturns
  have htag := h.tag_eq
  have hargument := h.argument_eq
  obtain ⟨tag, argument, body, number⟩ := s
  obtain ⟨tag', argument', body', number'⟩ := s'
  cases htag
  cases hargument
  -- a definition looks at its body without the comments only
  have hsame : defineMacro ⟨tag, argument, body', number'⟩ =
      defineMacro ⟨tag, argument, body, number'⟩ := by
    simp only [defineMacro, Definition.ofSection, hbody]
  rw [hsame]
  exact related_defineMacro False.elim tag argument body

theorem includeTarget_filtered {s s' : Section} (h : s.Filtered s')
    (huntouched : Text.trim s.argument = [] → s.HasNoComment ∧ s.HasNoReturn) :
    includeTarget s' = includeTarget s := by
  rw [includeTarget, includeTarget, h.argument_eq]
  by_cases hargument : Text.trim s.argument = []
  · rw [if_pos hargument, if_pos hargument, h.body_eq (huntouched hargument).1
      (huntouched hargument).2]
  · rw [if_neg hargument, if_neg hargument]

theorem related_includeTemplate_filtered {same : List Text} {s s' : Section} (h : s.Filtered s')
    (huntouched : Text.trim s.argument = [] → s.HasNoComment ∧ s.HasNoReturn) :
    Related False same same Eq (includeTemplate setup (processFile setup) s)
      (includeTemplate setup (processFile setup) s') := by
  rw [includeTemplate_eq, includeTemplate_eq, includeTarget_filtered h huntouched]
  split
  · exact related_throw False.elim
  · refine related_get_bind fun p q halike => ?_
    rw [halike.files, halike.opened_left, halike.opened_right]
    refine relatedAt_bind (related_ofExcept (sameEnd_mapError False.elim _) p q halike)
      fun path _ heq => ?_
    subst heq
    exact related_bind (related_note False.elim) fun _ _ _ => related_processFile same path

end Processing

/-- No comment of the text makes a difference. No comment stands in a body that is used as it is, and no
line of it ends with a carriage return; these are the bodies of the `file` sections of directories
and of the `include` sections without an argument. In no definition only comments follow a blank line,
and without its comments no line of it ends with a carriage return. -/
structure CommentsApart (text : Text) : Prop where
  files : ∀ d : Section, d.StandsIn text → d.tag = "dir" →
    ∀ s, FillsDirectory d.body s → s.tag = "file" → s.HasNoComment ∧ s.HasNoReturn
  includes : ∀ s : Section, s.StandsIn text → s.tag = "include" → Text.trim s.argument = [] →
    s.HasNoComment ∧ s.HasNoReturn
  definitions : ∀ s : Section, s.StandsIn text → s.tag = "def" →
    ¬ s.EndsInBareBlank ∧ Text.NoReturns (Comment.keep 0 (Text.lines s.body))

namespace Processing

theorem related_handleSection_filtered {same : List Text} {setup : Setup} {text : Text}
    {s s' : Section} (htable : setup.table = .standard) (hapart : CommentsApart text)
    (hstands : s.StandsIn text) (h : s.Filtered s') :
    Related False same same Eq (handleSection setup (processFile setup) s)
      (handleSection setup (processFile setup) s') := by
  simp only [handleSection, h.tag_eq, htable]
  cases hhandler : SectionTable.standard.get? s.tag with
  | none => exact related_note False.elim
  | some handler =>
      refine related_bind (related_note False.elim) fun _ _ _ => ?_
      cases handler with
      | definition =>
          have htag := SectionTable.standard_get?_eq_definition hhandler
          obtain ⟨hblank, hreturns⟩ := hapart.definitions s hstands htag
          exact related_defineMacro_filtered h hblank hreturns
      | directory =>
          have htag := SectionTable.standard_get?_eq_directory hhandler
          refine related_childDirectory_bind h _ _ _ fun target => ?_
          exact related_fillDirectory_filtered h (hapart.files s hstands htag) target
      | inclusion =>
          have htag := SectionTable.standard_get?_eq_inclusion.mp hhandler
          exact related_includeTemplate_filtered h (hapart.includes s hstands htag)
      | comment => exact related_pure rfl

end Processing

open Processing

/-- Comments that stand apart make no difference to a text whose sections are well nested: with them
and without them the text succeeds or fails alike, and leaves the same macros, files and record. -/
theorem comments_make_no_difference {setup : Setup} {text : Text} (htable : setup.table = .standard)
    (hcheck : checkNesting text = .ok ()) (hapart : CommentsApart text) (p : Progress) :
    SameEffect (processText setup text p) (processText setup (stripComments text) p) := by
  have hnested := Nesting.checkNesting_eq_ok_iff_nested.mp hcheck
  have hlines : Text.lines (stripComments text) =
      Text.linesOfPieces (Comment.keep 0 (Text.lines text)) :=
    Text.lines_unlines fun line hline =>
      Text.newline_not_mem_of_mem_lines ((Comment.keep_sublist 0 _).subset hline)
  obtain ⟨ending, hkept, hending⟩ :=
    Text.exists_dropReturns_eq (Comment.keep 0 (Text.lines text))
  have hloses := LosesReturns.of_dropReturns (Comment.keep 0 (Text.lines text))
  rw [hkept, ← hlines] at hloses
  have hending' : ending = [] ∨ ending = [[]] := hending.imp And.left And.left
  have hcheck' : checkNesting (stripComments text) = .ok () := by
    rw [Nesting.checkNesting_eq_ok_iff_nested]
    have hall := hloses.nested (Comment.nested_keep hnested)
    rcases hending' with rfl | rfl
    · rwa [List.append_nil] at hall
    · exact hall.of_append_blank
  obtain ⟨items, items', hscan, hscan', hitems⟩ := Scan.thinned_scan hnested hloses hending' 1 1
  rw [processText, processText, handleText_of_scan hcheck hscan, handleText_of_scan hcheck' hscan']
  have hrelated : Related False p.opened p.opened Eq
      (items.forM (handleItem setup (processFile setup)))
      (items'.forM (handleItem setup (processFile setup))) := by
    refine related_forM_thinned hitems (fun item hidle => quiet_handleItem hidle htable _)
      (fun item hidle => quiet_handleItem hidle htable _) fun s s' hmem hfiltered => ?_
    exact related_handleSection_filtered htable hapart ⟨1, items, hscan, hmem⟩ hfiltered
  exact (hrelated p p (.refl p)).sameEffect

theorem Section.StandsIn.exists_block_mem {s : Section} {text : Text} {items : List Item}
    (h : s.StandsIn text) (hscan : scan text 1 = .ok items) :
    ∃ line, .block ⟨s.tag, s.argument, s.body, line⟩ ∈ items := by
  obtain ⟨number, found, hfound, hmem⟩ := h
  have halike : List.Forall₂ (Item.Alike False) found items :=
    Scan.elements_alike False.elim hfound hscan
  clear hfound hscan
  induction halike with
  | nil => cases hmem
  | cons hitem _ ih =>
      rcases List.mem_cons.mp hmem with rfl | hrest
      · cases hitem
        exact ⟨_, List.mem_cons_self⟩
      · obtain ⟨line, hline⟩ := ih hrest
        exact ⟨line, List.mem_cons_of_mem _ hline⟩

/-- Comments at the top, in a definition and in a directory. -/
def commented : Text :=
  "@comment\nabout\n@comment_\n@def $m($x)\n@comment\nbody\n@comment_\n$x\n@def_\n" ++
    "@dir a\n@comment note @comment_\n@file x.c $m(1) @file_\n@dir_\n"

theorem commented_apart : CommentsApart commented := by
  have hscan : scan commented 1 = .ok [
      .block ⟨"comment", [], "about", 1⟩,
      .block ⟨"def", "$m($x)", "@comment\nbody\n@comment_\n$x", 4⟩,
      .block ⟨"dir", "a", "@comment note @comment_\n@file x.c $m(1) @file_", 10⟩] := by cbv
  have hbody : scan "@comment note @comment_\n@file x.c $m(1) @file_" 1 = .ok [
      .block ⟨"comment", "note", [], 1⟩, .block ⟨"file", "x.c $m(1)", [], 2⟩] := by cbv
  constructor
  · intro d hd htag s hs hfile
    obtain ⟨line, hmem⟩ := hd.exists_block_mem hscan
    obtain ⟨-, hdirectory, -⟩ : d.argument = "a" ∧
        d.body = "@comment note @comment_\n@file x.c $m(1) @file_" ∧ line = 10 := by
      simpa [htag] using hmem
    rw [hdirectory] at hs
    cases hs with
    | top htop =>
        obtain ⟨number, hfound⟩ := htop.exists_block_mem hbody
        obtain ⟨-, hempty, -⟩ : s.argument = "x.c $m(1)" ∧ s.body = [] ∧ number = 2 := by
          simpa [hfile] using hfound
        rw [Section.HasNoComment, Section.HasNoReturn, hempty]
        decide
    | nested hinner hinnerTag _ =>
        obtain ⟨number, hfound⟩ := hinner.exists_block_mem hbody
        simp [hinnerTag] at hfound
  · intro s hs htag
    obtain ⟨line, hmem⟩ := hs.exists_block_mem hscan
    simp [htag] at hmem
  · intro s hs htag
    obtain ⟨line, hmem⟩ := hs.exists_block_mem hscan
    obtain ⟨-, hbody, -⟩ : s.argument = "$m($x)" ∧
        s.body = "@comment\nbody\n@comment_\n$x" ∧ line = 4 := by
      simpa [htag] using hmem
    rw [Section.EndsInBareBlank, hbody]
    decide +kernel

theorem comments_of_every_kind_make_no_difference :
    stripComments commented = "@def $m($x)\n$x\n@def_\n@dir a\n@file x.c $m(1) @file_\n@dir_" ∧
      SameEffect (processText ⟨"out", [], .standard⟩ commented { files := ⟨[], []⟩ })
        (processText ⟨"out", [], .standard⟩ (stripComments commented) { files := ⟨[], []⟩ }) := by
  refine ⟨by decide +kernel, ?_⟩
  exact comments_make_no_difference rfl (by decide +kernel) commented_apart _

def besideFile : Progress where
  files := ⟨[("t.tt", .file (.text []) false)], []⟩

def runBeside (text : Text) : Except TemplateError Unit × Progress :=
  processText ⟨"out", ["."], .standard⟩ text besideFile

def commentInFile : Text :=
  "@def $m($x)\n$x\n@def_\n@dir a\n@file x.c $m(1)\n@comment\nwhy\n@comment_\n@file_\n@dir_\n"

def commentInInclude : Text := "@include\nt.tt\n@comment\nwhy\n@comment_\n@include_\n"

def commentAfterBlank : Text := "@def $m\nA\n\n@comment\nwhy\n@comment_\n@def_\n"

def twoReturns : Text := "@def $m\nA\r\r\n@def_\n"

theorem comment_in_file_fails : (runBeside commentInFile).1.isOk = false ∧
    (runBeside (stripComments commentInFile)).1.isOk = true := by
  have hstrip : stripComments commentInFile =
      "@def $m($x)\n$x\n@def_\n@dir a\n@file x.c $m(1)\n@file_\n@dir_" := by decide +kernel
  rw [hstrip]
  delta runBeside processText handleText handleItem handleSection generateDirectory
  simp only [fillDirectory_eq]
  constructor
  · cbv
  · cbv

theorem comment_in_include_fails : (runBeside commentInInclude).1.isOk = false ∧
    (runBeside (stripComments commentInInclude)).1.isOk = true := by
  have hstrip : stripComments commentInInclude = "@include\nt.tt\n@include_" := by decide +kernel
  obtain ⟨room, hroom⟩ := processFile_eq ⟨"out", ["."], .standard⟩
  rw [hstrip]
  delta runBeside processText handleText handleItem handleSection includeTemplate
  simp only [hroom]
  delta openTemplate handleText
  constructor
  · cbv
  · cbv

theorem comment_after_blank_keeps_it :
    (runBeside commentAfterBlank).2.macros = ⟨[⟨"$m", "A\n", []⟩]⟩ ∧
      (runBeside (stripComments commentAfterBlank)).2.macros = ⟨[⟨"$m", "A", []⟩]⟩ := by
  have hstrip : stripComments commentAfterBlank = "@def $m\nA\n\n@def_" := by decide +kernel
  rw [hstrip]
  delta runBeside processText handleText handleItem handleSection defineMacro
  constructor
  · cbv
  · cbv

theorem filter_drops_a_return :
    (runBeside twoReturns).2.macros = ⟨[⟨"$m", "A\r", []⟩]⟩ ∧
      (runBeside (stripComments twoReturns)).2.macros = ⟨[⟨"$m", "A", []⟩]⟩ := by
  have hstrip : stripComments twoReturns = "@def $m\nA\r\n@def_" := by decide +kernel
  rw [hstrip]
  delta runBeside processText handleText handleItem handleSection defineMacro
  constructor
  · cbv
  · cbv

theorem comments_can_make_a_difference :
    (checkNesting commentInFile = .ok () ∧ (runBeside commentInFile).1.isOk = false ∧
      (runBeside (stripComments commentInFile)).1.isOk = true) ∧
    (checkNesting commentInInclude = .ok () ∧ (runBeside commentInInclude).1.isOk = false ∧
      (runBeside (stripComments commentInInclude)).1.isOk = true) ∧
    (checkNesting commentAfterBlank = .ok () ∧ (runBeside commentAfterBlank).2.macros ≠
      (runBeside (stripComments commentAfterBlank)).2.macros) ∧
    checkNesting twoReturns = .ok () ∧
      (runBeside twoReturns).2.macros ≠ (runBeside (stripComments twoReturns)).2.macros := by
  refine ⟨⟨by decide, comment_in_file_fails⟩, ⟨by decide, comment_in_include_fails⟩,
    ⟨by decide, ?_⟩, by decide, ?_⟩
  · rw [comment_after_blank_keeps_it.1, comment_after_blank_keeps_it.2]
    decide
  · rw [filter_drops_a_return.1, filter_drops_a_return.2]
    decide

end TemplateSuite
