import TemplateSuite.Proofs.Template.CommentFilter
import TemplateSuite.Proofs.Template.DefinitionHeading

namespace TemplateSuite

namespace Definition

/-- The name, and the parameters in parentheses if there are any. -/
def heading (m : Macro) : Text :=
  if m.params = [] then m.name else m.name ++ '(' :: (Text.commaSeparated m.params ++ [')'])

def openingLine (m : Macro) : Text :=
  '@' :: (("def" : Text) ++ ' ' :: heading m)

/-- The section that defines the macro. -/
def render (m : Macro) : Text :=
  openingLine m ++ '\n' :: (m.body ++ '\n' :: (Line.closeMarker "def" ++ ['\n']))

def renderAll (macros : List Macro) : Text :=
  macros.flatMap render

/-- The body comes back from between the lines of a section, whatever they are. -/
structure IsPlainBody (body : Text) : Prop where
  no_newline_at_end : ¬ ['\n'] <:+ body
  no_return : ∀ line ∈ body.splitOn '\n', ¬ ['\r'] <:+ line
  all_text : ∀ line ∈ body.splitOn '\n', Line.classify line = .text

variable {m : Macro} {c : Char}

theorem not_mem_heading (h : m.IsMade) (hmark : c ∉ ['$', '(', ')', ',', ' '])
    (hidentifier : isIdentifierChar c = false) : c ∉ heading m := by
  obtain ⟨hname, hparams⟩ := Macro.isMade_iff.mp h
  simp only [List.mem_cons, List.not_mem_nil, or_false, not_or] at hmark
  obtain ⟨hsigil, hopen, hclose, hcomma, hspace⟩ := hmark
  have hown : c ∉ m.name := hname.not_mem hsigil hidentifier
  have hlist : c ∉ Text.commaSeparated m.params :=
    Text.not_mem_commaSeparated hcomma hspace fun param hparam =>
      (hparams param hparam).not_mem hsigil hidentifier
  unfold heading
  split
  · exact hown
  · simp [hown, hopen, hlist, hclose]

theorem splitOn_openingLine (h : m.IsMade) : (openingLine m).splitOn '\n' = [openingLine m] := by
  apply List.splitOn_eq_singleton
  have hheading : '\n' ∉ heading m := not_mem_heading h (by decide) rfl
  simp [openingLine, hheading]

theorem dropReturn_openingLine (h : m.IsMade) :
    Text.dropReturn (openingLine m) = openingLine m := by
  apply Text.dropReturn_of_not_suffix
  rintro ⟨front, hfront⟩
  have hheading : '\r' ∉ heading m := not_mem_heading h (by decide) rfl
  have hreturn : '\r' ∉ openingLine m := by simp [openingLine, hheading]
  exact hreturn (hfront ▸ List.mem_append_right front List.mem_cons_self)

theorem trim_heading (h : m.IsMade) : Text.trim (heading m) = heading m := by
  obtain ⟨hname, -⟩ := Macro.isMade_iff.mp h
  unfold heading
  split
  · exact hname.trim
  · obtain ⟨identifier, hidentifier, -⟩ := hname
    apply Text.trim_of_ends
    · rw [hidentifier, List.cons_append]
      rintro d ⟨⟩
      rfl
    · rw [← List.cons_append, ← List.append_assoc, List.getLast?_concat]
      rintro d ⟨⟩
      rfl

theorem isTag_def : Line.IsTag "def" :=
  ⟨List.cons_ne_nil _ _, List.all_eq_true.mp rfl⟩

theorem classify_openingLine (h : m.IsMade) :
    Line.classify (openingLine m) = .opening "def" (heading m) false := by
  refine Line.classify_opening isTag_def (trim_heading h) ?_
  rintro ⟨front, hfront⟩
  have hmarker : '@' ∉ heading m := not_mem_heading h (by decide) rfl
  exact hmarker (hfront ▸ List.mem_append_right front List.mem_cons_self)

theorem parameters_commaSeparated {params : List Text} (h : ∀ param ∈ params, IsMacroName param)
    (hne : params ≠ []) : parameters (Text.commaSeparated params) = params := by
  obtain ⟨first, rest, rfl⟩ := List.exists_cons_of_ne_nil hne
  have hcomma : ∀ param ∈ first :: rest, ',' ∉ param := fun param hparam =>
    (h param hparam).not_mem (by decide) rfl
  have htrim : ∀ param ∈ first :: rest, Text.trim param = param := fun param hparam =>
    (h param hparam).trim
  have hspaced : (rest.map (' ' :: ·)).map Text.trim = rest := by
    rw [List.map_map]
    refine (List.map_congr_left fun param hparam => ?_).trans (List.map_id rest)
    exact htrim param (List.mem_cons_of_mem first hparam)
  rw [parameters, Text.splitOn_commaSeparated hcomma, List.map_cons, hspaced,
    htrim first List.mem_cons_self]
  refine List.filter_eq_self.mpr fun param hparam => decide_eq_true ?_
  rintro rfl
  cases (h [] hparam).head?

/-- The heading of the macro as it is written. -/
def writtenHeading (m : Macro) : WrittenHeading :=
  ⟨m.name, if m.params = [] then none else some ⟨[], Text.commaSeparated m.params⟩⟩

theorem text_writtenHeading (m : Macro) : (writtenHeading m).text = heading m := by
  unfold heading writtenHeading
  split
  · exact List.append_nil m.name
  · rfl

theorem params_writtenHeading (h : m.IsMade) : (writtenHeading m).params = m.params := by
  unfold writtenHeading
  by_cases hnone : m.params = []
  · rw [if_pos hnone, hnone]
    rfl
  · rw [if_neg hnone]
    exact parameters_commaSeparated (Macro.isMade_iff.mp h).2 hnone

theorem isValid_writtenHeading (h : m.IsMade) : (writtenHeading m).IsValid := by
  obtain ⟨hname, hparams⟩ := Macro.isMade_iff.mp h
  refine ⟨⟨hname.isMacroName_withSigil, fun l hl => ?_⟩, fun param hparam => ?_⟩
  · unfold writtenHeading at hl
    split at hl
    · cases hl
    · cases hl
      exact ⟨nofun, Text.not_mem_commaSeparated (by decide) (by decide) fun param hparam =>
        (hparams param hparam).not_mem (by decide) rfl⟩
  · rw [params_writtenHeading h] at hparam
    exact (hparams param hparam).isMacroName_withSigil

theorem define_writtenHeading (h : m.IsMade) : (writtenHeading m).define m.body = m := by
  obtain ⟨hname, hparams⟩ := Macro.isMade_iff.mp h
  rw [WrittenHeading.define, params_writtenHeading h, Macro.map_withSigil hparams]
  exact congrArg (Macro.mk · m.body m.params) hname.withSigil

namespace IsPlainBody

variable {body : Text}

theorem map_dropReturn (h : IsPlainBody body) :
    (body.splitOn '\n').map Text.dropReturn = body.splitOn '\n' :=
  Text.NoReturns.map_dropReturn h.no_return

theorem nested (h : IsPlainBody body) : Nested (body.splitOn '\n') := by
  have hall := h.all_text
  generalize body.splitOn '\n' = lines at hall
  induction lines with
  | nil => exact .nil
  | cons line rest ih =>
      refine .plain ?_ (ih fun other hother => hall other (List.mem_cons_of_mem line hother))
      rw [hall line List.mem_cons_self]
      rfl

theorem keep_zero_of_all_text {lines : List Text}
    (h : ∀ line ∈ lines, Line.classify line = .text) : Comment.keep 0 lines = lines := by
  induction lines with
  | nil => rfl
  | cons line rest ih =>
      rw [Comment.keep_zero_cons_text (h line List.mem_cons_self),
        ih fun other hother => h other (List.mem_cons_of_mem line hother)]

theorem exists_splitOn_eq (h : IsPlainBody body) :
    ∃ ending : List Text, body.splitOn '\n' = Text.lines body ++ ending ∧
      (ending = [] ∨ ending = [[]]) := by
  obtain ⟨ending, hlines, hending⟩ := Text.exists_dropReturns_eq (body.splitOn '\n')
  rw [(LosesReturns.of_dropReturns _).eq_of_noReturns h.no_return] at hlines
  exact ⟨ending, hlines, hending.imp And.left And.left⟩

theorem unlines_lines (h : IsPlainBody body) : Text.unlines (Text.lines body) = body := by
  have hjoin : Text.unlines (body.splitOn '\n') = body := List.intercalate_splitOn '\n'
  obtain ⟨ending, hlines, rfl | rfl⟩ := h.exists_splitOn_eq
  · rw [List.append_nil] at hlines
    rwa [hlines] at hjoin
  · by_cases hnone : Text.lines body = []
    · rw [hnone, ← hjoin, hlines, hnone]
      rfl
    · have hnewline : (Text.unlines (Text.lines body) ++ ['\n']).splitOn '\n' =
          body.splitOn '\n' := by
        rw [List.splitOn_append_cons_self,
          Text.splitOn_unlines hnone fun _ => Text.newline_not_mem_of_mem_lines]
        exact hlines.symm
      have hend : Text.unlines (Text.lines body) ++ ['\n'] = body :=
        (List.intercalate_splitOn '\n').symm.trans
          ((congrArg (List.intercalate ['\n']) hnewline).trans hjoin)
      exact absurd ⟨_, hend⟩ h.no_newline_at_end

theorem stripComments (h : IsPlainBody body) : stripComments body = body := by
  have hall : ∀ line ∈ Text.lines body, Line.classify line = .text := by
    intro line hline
    obtain ⟨ending, hlines, -⟩ := h.exists_splitOn_eq
    apply h.all_text
    rw [hlines]
    exact List.mem_append_left ending hline
  rw [TemplateSuite.stripComments, keep_zero_of_all_text hall, h.unlines_lines]

end IsPlainBody

theorem lines_render (h : m.IsMade) (hbody : IsPlainBody m.body) :
    Text.lines (render m) =
      openingLine m :: (m.body.splitOn '\n' ++ [Line.closeMarker "def"]) := by
  have hclose : Text.lines (Line.closeMarker "def" ++ ['\n']) = [Line.closeMarker "def"] := rfl
  rw [render, Text.lines_append_newline, splitOn_openingLine h, List.map_singleton,
    dropReturn_openingLine h, Text.lines_append_newline, hbody.map_dropReturn, hclose]
  rfl

theorem endsWithLine_render (m : Macro) : (render m).EndsWithLine := by
  refine .inr ⟨openingLine m ++ '\n' :: (m.body ++ '\n' :: Line.closeMarker "def"), ?_⟩
  simp [render]

theorem checkNesting_render (h : m.IsMade) (hbody : IsPlainBody m.body) :
    checkNesting (render m) = .ok () := by
  rw [Nesting.checkNesting_eq_ok_iff_nested, lines_render h hbody]
  exact .enclose (classify_openingLine h) (Line.classify_closeMarker isTag_def) hbody.nested .nil

/-- The section of the macro at a line. -/
def sectionAt (line : Nat) (m : Macro) : Section :=
  ⟨"def", heading m, m.body, line⟩

theorem scan_render (h : m.IsMade) (hbody : IsPlainBody m.body) (number : Nat) :
    scan (render m) number = .ok [.block (sectionAt number m)] := by
  have hjoin : Text.unlines (m.body.splitOn '\n') = m.body := List.intercalate_splitOn '\n'
  rw [scan, lines_render h hbody, Scan.scanLines_cons_section (classify_openingLine h)
    (Line.classify_closeMarker isTag_def) hbody.nested, hjoin, scanLines]
  rfl

theorem ofSection_sectionAt (h : m.IsMade) (hbody : IsPlainBody m.body) (line : Nat) :
    ofSection (sectionAt line m) = .ok m := by
  refine ofSection_eq_ok_iff.mpr ⟨writtenHeading m, isValid_writtenHeading h, ?_, ?_⟩
  · rw [text_writtenHeading, sectionAt, trim_heading h]
  · rw [sectionAt, hbody.stripComments, define_writtenHeading h]

theorem checkNesting_renderAll {macros : List Macro}
    (h : ∀ m ∈ macros, m.IsMade ∧ IsPlainBody m.body) :
    checkNesting (renderAll macros) = .ok () := by
  induction macros with
  | nil => rfl
  | cons m rest ih =>
      obtain ⟨⟨hmade, hbody⟩, hrest⟩ := List.forall_mem_cons.mp h
      exact Nesting.checkNesting_append (endsWithLine_render m) (checkNesting_render hmade hbody)
        (ih hrest)

example : checkNesting "@def $one\n1\n@def_\n@def $add($x, $y)\n$x +\n\n$y\n@def_\n" = .ok () := by
  decide

theorem scan_renderAll {macros : List Macro} (h : ∀ m ∈ macros, m.IsMade ∧ IsPlainBody m.body)
    (number : Nat) :
    ∃ items, scan (renderAll macros) number = .ok items ∧
      List.Forall₂ (fun m item => ∃ line, item = .block (sectionAt line m)) macros items := by
  induction macros generalizing number with
  | nil => exact ⟨[], by rw [renderAll, List.flatMap_nil, scan]; exact scanLines.eq_1 _, .nil⟩
  | cons m rest ih =>
      obtain ⟨⟨hmade, hbody⟩, hrest⟩ := List.forall_mem_cons.mp h
      obtain ⟨items, hscan, hitems⟩ := ih hrest (number + (Text.lines (render m)).length)
      refine ⟨.block (sectionAt number m) :: items, ?_, .cons ⟨number, rfl⟩ hitems⟩
      have happend := Scan.scan_append (endsWithLine_render m) (checkNesting_render hmade hbody)
        (renderAll rest) number
      rw [scan_render hmade hbody, hscan] at happend
      exact happend

end Definition

end TemplateSuite
