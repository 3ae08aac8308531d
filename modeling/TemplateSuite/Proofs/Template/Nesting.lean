import TemplateSuite.Proofs.Template.OpenSections

namespace TemplateSuite

/-- The closing line that the error is about. -/
def NestingError.closeLine? : NestingError → Option Nat
  | .mismatched _ line _ => some line
  | .unexpectedClose _ line => some line
  | .unterminated _ => none

namespace Nesting

/-- The lines that close the sections of a stack, innermost first. -/
def closingLines (stack : List OpenSection) : List Text :=
  stack.map fun s => Line.closeMarker s.tag

theorem isTag_of_run {stack final : List OpenSection} {number : Nat} {lines : List Text}
    (hstack : ∀ s ∈ stack, Line.IsTag s.tag) (h : run stack number lines = .ok final) :
    ∀ s ∈ final, Line.IsTag s.tag := by
  induction lines generalizing stack number with
  | nil =>
      cases h
      exact hstack
  | cons line rest ih =>
      rcases run_cons_cases h with ⟨-, hrest⟩ | ⟨tag, _, hopen, hrest⟩ | ⟨_, _, rfl, -, hrest⟩
      · exact ih hstack hrest
      · refine ih (fun s hs => ?_) hrest
        rcases List.mem_cons.mp hs with rfl | hmem
        · exact Line.isTag_of_classify_opening hopen
        · exact hstack s hmem
      · exact ih (fun s hs => hstack s (List.mem_cons_of_mem _ hs)) hrest

theorem run_closingLines {stack : List OpenSection} (h : ∀ s ∈ stack, Line.IsTag s.tag)
    (number : Nat) : run stack number (closingLines stack) = .ok [] := by
  induction stack generalizing number with
  | nil => rfl
  | cons innermost outer ih =>
      have hclose : Line.classify (Line.closeMarker innermost.tag) = .closing innermost.tag :=
        Line.classify_closeMarker (h innermost List.mem_cons_self)
      rw [closingLines, List.map_cons, run_cons_closing hclose]
      exact ih (fun s hs => h s (List.mem_cons_of_mem _ hs)) (number + 1)

theorem newline_not_mem_closingLines {stack : List OpenSection}
    (h : ∀ s ∈ stack, Line.IsTag s.tag) : ∀ line ∈ closingLines stack, '\n' ∉ line := by
  intro line hline
  obtain ⟨s, hs, rfl⟩ := List.mem_map.mp hline
  exact Line.newline_not_mem_closeMarker (h s hs)

theorem run_append_closingLines {number : Nat} {lines : List Text} {stack : List OpenSection}
    (h : run [] number lines = .ok stack) :
    run [] number (lines ++ closingLines stack) = .ok [] := by
  rw [run_append, h]
  exact run_closingLines (isTag_of_run (by simp) h) _

theorem step_error_cases {stack : List OpenSection} {number : Nat} {line : Line}
    {e : NestingError} (h : step stack number line = .error e) :
    (∃ tag, e = .unexpectedClose tag number) ∨
      ∃ tag innermost, e = .mismatched tag number innermost := by
  unfold step at h
  split at h
  · cases h
  · cases h
  · cases h
  · split at h
    · cases h
      exact .inl ⟨_, rfl⟩
    · split at h
      · cases h
      · cases h
        exact .inr ⟨_, _, rfl⟩

/-- A run that fails stops at one line, which its error names. -/
theorem exists_of_run_error {stack : List OpenSection} {number : Nat} {lines : List Text}
    {e : NestingError} (h : run stack number lines = .error e) :
    ∃ before line after next, lines = before ++ line :: after ∧
      run stack number before = .ok next ∧ run stack number (before ++ [line]) = .error e ∧
      e.closeLine? = some (number + before.length) := by
  induction lines generalizing stack number with
  | nil => cases h
  | cons line rest ih =>
      cases hstep : step stack number (Line.classify line) with
      | error found =>
          have hsingle : run stack number [line] = .error found := by simp [run, hstep]
          simp only [run, hstep] at h
          cases h
          refine ⟨[], line, rest, stack, rfl, rfl, hsingle, ?_⟩
          rcases step_error_cases hstep with ⟨_, rfl⟩ | ⟨_, _, rfl⟩ <;> rfl
      | ok next =>
          simp only [run, hstep] at h
          obtain ⟨before, wrong, after, stack', rfl, hbefore, hwrong, hline⟩ := ih h
          refine ⟨line :: before, wrong, after, stack', rfl, ?_, ?_, ?_⟩
          · simpa only [run, hstep] using hbefore
          · simpa only [List.cons_append, run, hstep] using hwrong
          · rw [hline, List.length_cons]
            congr 1
            omega

theorem exists_wrong_line {lines : List Text} {e : NestingError} {number : Nat}
    (h : run [] 1 lines = .error e) (hline : e.closeLine? = some number) :
    ∃ before line after stack, lines = before ++ line :: after ∧ number = before.length + 1 ∧
      run [] 1 before = .ok stack ∧ run [] 1 (before ++ [line]) = .error e := by
  obtain ⟨before, line, after, stack, hsplit, hbefore, hwrong, hline'⟩ := exists_of_run_error h
  rw [hline] at hline'
  have hnumber := Option.some.inj hline'
  exact ⟨before, line, after, stack, hsplit, by omega, hbefore, hwrong⟩

theorem run_of_checkNesting_error {text : Text} {e : NestingError}
    (h : checkNesting text = .error e) :
    run [] 1 (Text.lines text) = .error e ∨
      ∃ stack, e = .unterminated stack.reverse ∧ run [] 1 (Text.lines text) = .ok stack := by
  unfold checkNesting at h
  split at h
  · cases h
  · rename_i stack _ hrun
    cases h
    exact .inr ⟨stack, rfl, hrun⟩
  · rename_i hrun
    cases h
    exact .inl hrun

theorem run_of_unterminated {text : Text} {sections : List OpenSection}
    (h : checkNesting text = .error (.unterminated sections)) :
    run [] 1 (Text.lines text) = .ok sections.reverse := by
  rcases run_of_checkNesting_error h with hrun | ⟨stack, hsections, hrun⟩
  · obtain ⟨_, _, _, _, _, _, _, hline⟩ := exists_of_run_error hrun
    cases hline
  · cases hsections
    rwa [List.reverse_reverse]

theorem run_of_closeLine {text : Text} {e : NestingError} {number : Nat}
    (h : checkNesting text = .error e) (hline : e.closeLine? = some number) :
    run [] 1 (Text.lines text) = .error e := by
  rcases run_of_checkNesting_error h with hrun | ⟨stack, rfl, -⟩
  · exact hrun
  · cases hline

/-- The text begins with the given lines, white space at their ends apart. -/
def BeginsWith (start : List Text) (text : Text) : Prop :=
  start.map Text.trimRight <+: (Text.lines text).map Text.trimRight

theorem checkNesting_ne_ok_of_beginsWith {text other : Text} {e : NestingError} {number : Nat}
    (h : run [] 1 (Text.lines text) = .error e) (hline : e.closeLine? = some number)
    (hstart : BeginsWith ((Text.lines text).take number) other) : checkNesting other ≠ .ok () := by
  obtain ⟨before, line, after, _, hsplit, rfl, -, hwrong⟩ := exists_wrong_line h hline
  have htake : (Text.lines text).take (before.length + 1) = before ++ [line] := by
    rw [hsplit, List.append_cons]
    exact List.take_left' (by simp)
  rw [htake] at hstart
  obtain ⟨rest, hrest⟩ := hstart
  obtain ⟨first, others, hlines, hfirst, -⟩ := List.map_eq_append_iff.mp hrest.symm
  have hkinds : first.map Line.classify = (before ++ [line]).map Line.classify := by
    have := congrArg (List.map Line.classify) hfirst
    simpa [List.map_map, Function.comp_def, Line.classify_trimRight] using this
  rw [Ne, checkNesting_eq_ok_iff_run, hlines, run_append, run_congr hkinds, hwrong]
  simp [Except.bind]

theorem exists_completion {text : Text} {e : NestingError} {number : Nat}
    (h : run [] 1 (Text.lines text) = .error e) (hline : e.closeLine? = some number) :
    ∃ other, (Text.lines text).take (number - 1) <+: Text.lines other ∧
      checkNesting other = .ok () := by
  -- the pieces between newlines keep the endings of the lines, which joining lines would change
  rw [run_lines] at h
  obtain ⟨before, line, after, stack, hsplit, rfl, hrun, -⟩ := exists_wrong_line h hline
  have htake : (Text.lines text).take before.length = before.map Text.dropReturn := by
    rw [Text.lines, hsplit, Text.linesOfPieces_append _ (List.cons_ne_nil line after)]
    simp
  have hnewline : ∀ piece ∈ before ++ closingLines stack ++ [[]], '\n' ∉ piece := by
    intro piece hpiece
    rcases List.mem_append.mp hpiece with hpiece | hpiece
    · rcases List.mem_append.mp hpiece with hpiece | hpiece
      · exact Text.not_mem_of_mem_splitOn (hsplit ▸ List.mem_append_left _ hpiece)
      · exact newline_not_mem_closingLines (isTag_of_run (by simp) hrun) piece hpiece
    · simp_all
  refine ⟨Text.unlines (before ++ closingLines stack ++ [[]]), ?_, ?_⟩
  · rw [Nat.add_sub_cancel, htake, Text.lines_unlines hnewline,
      Text.linesOfPieces_append _ (List.cons_ne_nil _ _), List.map_append, List.append_assoc]
    exact List.prefix_append _ _
  · rw [checkNesting_eq_ok_iff_run, Text.lines_unlines hnewline, run_linesOfPieces, run_append,
      run_append_closingLines hrun]
    rfl

theorem closeLine_mem {text : Text} {e : NestingError} {number : Nat}
    (h : run [] 1 (Text.lines text) = .error e) (hline : e.closeLine? = some number) :
    0 < number ∧ number ≤ (Text.lines text).length := by
  obtain ⟨before, line, after, _, hsplit, rfl, -, -⟩ := exists_wrong_line h hline
  rw [hsplit, List.length_append, List.length_cons]
  omega

theorem checkNesting_append_closingLines {text : Text} {stack : List OpenSection}
    (h : run [] 1 (Text.lines text) = .ok stack) :
    checkNesting (text ++ '\n' :: Text.unlines (closingLines stack)) = .ok () := by
  have htags : ∀ s ∈ stack, Line.IsTag s.tag := isTag_of_run (by simp) h
  have hkinds : ((text.splitOn '\n').map Text.dropReturn).map Line.classify =
      (text.splitOn '\n').map Line.classify := by
    simp [Function.comp_def, Line.classify_dropReturn]
  rw [run_lines] at h
  rw [checkNesting_eq_ok_iff_run, Text.lines_append_newline,
    Text.lines_unlines (newline_not_mem_closingLines htags), run_append, run_congr hkinds, h]
  simp only [Except.bind]
  rw [run_linesOfPieces]
  exact run_closingLines htags _

/-- The checker recognises the viable prefixes of well-nested texts. It accepts a text exactly if
its delimiters are well nested. If sections are left open, it lists exactly those that nothing
closes, by increasing line, and closing them in reverse order makes the text acceptable. If a
closing line is wrong, the lines before it can still be completed, but with it they cannot. -/
theorem checkNesting_recognises_viable_prefixes (text : Text) :
    (checkNesting text = .ok () ↔ WellNested (delimiters (Text.lines text))) ∧
      (∀ sections, checkNesting text = .error (.unterminated sections) →
        (∀ s, s ∈ sections ↔ Unclosed 1 (Text.lines text) s) ∧
          sections.Pairwise (fun outer inner => outer.line < inner.line) ∧
          checkNesting (text ++ '\n' :: Text.unlines (closingLines sections.reverse)) = .ok ()) ∧
      ∀ e number, checkNesting text = .error e → e.closeLine? = some number →
        (0 < number ∧ number ≤ (Text.lines text).length) ∧
          (∃ other, (Text.lines text).take (number - 1) <+: Text.lines other ∧
            checkNesting other = .ok ()) ∧
          ∀ other, BeginsWith ((Text.lines text).take number) other →
            checkNesting other ≠ .ok () := by
  refine ⟨?_, ?_, ?_⟩
  · rw [checkNesting_eq_ok_iff_run, run_eq_ok_nil_iff]
  · intro sections h
    have hrun := run_of_unterminated h
    have hempty : Ordered [] 1 := ⟨by simp, .nil⟩
    refine ⟨fun s => ?_, ?_, checkNesting_append_closingLines hrun⟩
    · rw [← List.mem_reverse]
      constructor
      · intro hmem
        refine (mem_iff_unclosed hempty hrun ?_).mp hmem
        exact (mem_or_le_line_of_run hrun hmem).resolve_left (by simp)
      · intro hunclosed
        exact (mem_iff_unclosed hempty hrun (le_line_of_unclosed hunclosed)).mpr hunclosed
    · exact List.pairwise_reverse.mp (ordered_of_run hempty hrun).decreasing
  · intro e number h hline
    have hrun := run_of_closeLine h hline
    exact ⟨closeLine_mem hrun hline, exists_completion hrun hline,
      fun other hstart => checkNesting_ne_ok_of_beginsWith hrun hline hstart⟩

theorem misordered_close_cannot_be_mended :
    checkNesting "@a\n@b\n@c\n@c_" = .error (.unterminated [⟨"a", 1⟩, ⟨"b", 2⟩]) ∧
      checkNesting "@a\n@b\n@c\n@c_\n@b_\n@a_" = .ok () ∧
      checkNesting "@a\n@b\n@a_\n@b_" = .error (.mismatched "a" 3 ⟨"b", 2⟩) ∧
      ∀ other, BeginsWith ["@a", "@b", "@a_"] other → checkNesting other ≠ .ok () := by
  have hopen : checkNesting "@a\n@b\n@c\n@c_" = .error (.unterminated [⟨"a", 1⟩, ⟨"b", 2⟩]) := by
    decide
  have hwrong : checkNesting "@a\n@b\n@a_\n@b_" = .error (.mismatched "a" 3 ⟨"b", 2⟩) := by decide
  refine ⟨hopen, ?_, hwrong, ?_⟩
  · exact ((checkNesting_recognises_viable_prefixes _).2.1 _ hopen).2.2
  · intro other hother
    exact ((checkNesting_recognises_viable_prefixes _).2.2 _ _ hwrong rfl).2.2 other hother

end Nesting

end TemplateSuite
