import TemplateSuite.Proofs.Template.WellNested

namespace TemplateSuite.Nesting

theorem step_of_none {line : Line} (h : line.delimiter? = none) (stack : List OpenSection)
    (number : Nat) : step stack number line = .ok stack := by
  rcases Line.delimiter?_eq_none.mp h with rfl | ⟨tag, argument, rfl⟩
  · rfl
  · rfl

theorem run_cons_of_none {line : Text} (h : (Line.classify line).delimiter? = none)
    (stack : List OpenSection) (number : Nat) (rest : List Text) :
    run stack number (line :: rest) = run stack (number + 1) rest := by
  rw [run, step_of_none h]

theorem run_cons_opening {line tag argument : Text}
    (h : Line.classify line = .opening tag argument false) (stack : List OpenSection)
    (number : Nat) (rest : List Text) :
    run stack number (line :: rest) = run (⟨tag, number⟩ :: stack) (number + 1) rest := by
  rw [run, h, step]

theorem run_cons_closing {line : Text} {innermost : OpenSection}
    (h : Line.classify line = .closing innermost.tag) (outer : List OpenSection)
    (number : Nat) (rest : List Text) :
    run (innermost :: outer) number (line :: rest) = run outer (number + 1) rest := by
  rw [run, h, step]
  simp

theorem run_cons_cases {stack final : List OpenSection} {number : Nat} {line : Text}
    {rest : List Text} (h : run stack number (line :: rest) = .ok final) :
    ((Line.classify line).delimiter? = none ∧ run stack (number + 1) rest = .ok final) ∨
      (∃ tag argument, Line.classify line = .opening tag argument false ∧
        run (⟨tag, number⟩ :: stack) (number + 1) rest = .ok final) ∨
      ∃ innermost outer, stack = innermost :: outer ∧
        Line.classify line = .closing innermost.tag ∧ run outer (number + 1) rest = .ok final := by
  cases hline : Line.classify line with
  | text =>
      rw [run_cons_of_none (by rw [hline]; rfl)] at h
      exact .inl ⟨rfl, h⟩
  | opening tag argument closed =>
      cases closed with
      | true =>
          rw [run_cons_of_none (by rw [hline]; rfl)] at h
          exact .inl ⟨rfl, h⟩
      | false =>
          rw [run_cons_opening hline] at h
          exact .inr (.inl ⟨tag, argument, rfl, h⟩)
  | closing tag =>
      cases stack with
      | nil => simp [run, hline, step] at h
      | cons innermost outer =>
          by_cases htag : innermost.tag = tag
          · subst htag
            rw [run_cons_closing hline] at h
            exact .inr (.inr ⟨innermost, outer, rfl, rfl, h⟩)
          · simp [run, hline, step, htag] at h

theorem run_append (stack : List OpenSection) (number : Nat) (front back : List Text) :
    run stack number (front ++ back) =
      (run stack number front).bind fun next => run next (number + front.length) back := by
  induction front generalizing stack number with
  | nil => rfl
  | cons line rest ih =>
      simp only [List.cons_append, run, List.length_cons]
      cases step stack number (Line.classify line) with
      | error e => rfl
      | ok next =>
          simp only [ih]
          rw [show number + 1 + rest.length = number + (rest.length + 1) by omega]

/-- Whole sections leave the stack as it was. -/
theorem run_of_nested {lines : List Text} (h : Nested lines) (stack : List OpenSection)
    (number : Nat) : run stack number lines = .ok stack := by
  induction h generalizing stack number with
  | nil => rfl
  | plain hline _ ih =>
      rw [run_cons_of_none hline]
      exact ih stack (number + 1)
  | enclose hopen hclose _ _ ihInner ihAfter =>
      rw [run_cons_opening hopen, run_append, ihInner]
      simp only [Except.bind]
      rw [run_cons_closing hclose]
      exact ihAfter stack _

theorem run_enclose {opener closer tag argument : Text} {inner after : List Text}
    (hopen : Line.classify opener = .opening tag argument false)
    (hclose : Line.classify closer = .closing tag) (hinner : Nested inner)
    (stack : List OpenSection) (number : Nat) :
    run stack number (opener :: (inner ++ closer :: after)) =
      run stack (number + inner.length + 2) after := by
  rw [run_cons_opening hopen, run_append, run_of_nested hinner]
  simp only [Except.bind]
  rw [run_cons_closing hclose]
  congr 1
  omega

/-- A section on the stack stays there, with all below it, until its closing line. -/
theorem suffix_or_closedBy {innermost : OpenSection} {outer final : List OpenSection}
    {number : Nat} {lines : List Text} (h : run (innermost :: outer) number lines = .ok final) :
    innermost :: outer <:+ final ∨ ClosedBy innermost.tag lines := by
  -- a section opened in the lines is closed within them, and the search goes on after its close
  induction hlength : lines.length using Nat.strongRecOn
    generalizing innermost outer number lines with
  | _ n ih =>
      cases lines with
      | nil =>
          cases h
          exact .inl (List.suffix_refl _)
      | cons line rest =>
          simp only [List.length_cons] at hlength
          rcases run_cons_cases h with ⟨hline, hrest⟩ | ⟨tag, argument, hopen, hrest⟩ |
            ⟨_, _, hstack, hclose, -⟩
          · rcases ih rest.length (by omega) hrest rfl with hsuffix |
              ⟨inner, closer, after, rfl, hinner, hcloser⟩
            · exact .inl hsuffix
            · refine .inr ⟨line :: inner, closer, after, rfl, ?_, hcloser⟩
              rwa [delimiters_cons_of_none hline]
          · rcases ih rest.length (by omega) hrest rfl with hsuffix |
              ⟨inner, closer, after, rfl, hinner, hcloser⟩
            · exact .inl ((List.suffix_cons _ _).trans hsuffix)
            · have hnested : Nested inner := wellNested_delimiters_iff.mp hinner
              rw [run_enclose hopen hcloser hnested] at h
              simp only [List.length_append, List.length_cons] at hlength
              rcases ih after.length (by omega) h rfl with hsuffix |
                ⟨inner', closer', after', rfl, hinner', hcloser'⟩
              · exact .inl hsuffix
              · refine .inr ⟨line :: (inner ++ closer :: inner'), closer', after', by simp, ?_,
                  hcloser'⟩
                exact (Nested.enclose hopen hcloser hnested
                  (wellNested_delimiters_iff.mp hinner')).wellNested
          · cases hstack
            exact .inr ⟨[], line, rest, rfl, .nil, hclose⟩

theorem run_eq_ok_nil_iff {number : Nat} {lines : List Text} :
    run [] number lines = .ok [] ↔ WellNested (delimiters lines) := by
  refine ⟨fun h => ?_, fun h => run_of_nested (wellNested_delimiters_iff.mp h) [] number⟩
  induction hlength : lines.length using Nat.strongRecOn generalizing number lines with
  | _ n ih =>
      cases lines with
      | nil => exact .nil
      | cons line rest =>
          simp only [List.length_cons] at hlength
          rcases run_cons_cases h with ⟨hline, hrest⟩ | ⟨tag, argument, hopen, hrest⟩ |
            ⟨_, _, hstack, -, -⟩
          · rw [delimiters_cons_of_none hline]
            exact ih rest.length (by omega) hrest rfl
          · have hnone : ¬ [⟨tag, number⟩] <:+ ([] : List OpenSection) := by simp
            obtain ⟨inner, closer, after, rfl, hinner, hclose⟩ :=
              (suffix_or_closedBy hrest).resolve_left hnone
            have hnested : Nested inner := wellNested_delimiters_iff.mp hinner
            rw [run_enclose hopen hclose hnested] at h
            simp only [List.length_append, List.length_cons] at hlength
            have hafter := ih after.length (by omega) h rfl
            exact (Nested.enclose hopen hclose hnested
              (wellNested_delimiters_iff.mp hafter)).wellNested
          · simp at hstack

theorem run_congr {front back : List Text}
    (h : front.map Line.classify = back.map Line.classify) (stack : List OpenSection)
    (number : Nat) : run stack number front = run stack number back := by
  induction front generalizing back stack number with
  | nil =>
      obtain rfl : back = [] := by simpa using h.symm
      rfl
  | cons line rest ih =>
      obtain ⟨line', rest', rfl, hline, hrest⟩ := List.map_eq_cons_iff.mp h.symm
      simp only [run, hline]
      cases step stack number (Line.classify line) with
      | error e => rfl
      | ok next => exact ih hrest.symm next (number + 1)

theorem run_linesOfPieces (pieces : List Text) (stack : List OpenSection) (number : Nat) :
    run stack number (Text.linesOfPieces pieces) = run stack number pieces := by
  obtain ⟨ending, hending, hkinds⟩ := Line.exists_kinds_eq_append pieces
  rw [run_congr hkinds, run_append]
  rcases hending with rfl | rfl
  · cases run stack number (Text.linesOfPieces pieces) <;> rfl
  · cases run stack number (Text.linesOfPieces pieces) <;> rfl

theorem run_lines (text : Text) (stack : List OpenSection) (number : Nat) :
    run stack number (Text.lines text) = run stack number (text.splitOn '\n') :=
  run_linesOfPieces _ stack number

theorem checkNesting_eq_ok_iff_run {text : Text} :
    checkNesting text = .ok () ↔ run [] 1 (Text.lines text) = .ok [] := by
  unfold checkNesting
  split <;> simp_all

theorem checkNesting_eq_ok_iff_nested {text : Text} :
    checkNesting text = .ok () ↔ Nested (Text.lines text) := by
  rw [checkNesting_eq_ok_iff_run, run_eq_ok_nil_iff, wellNested_delimiters_iff]

theorem checkNesting_unlines {lines : List Text} (h : Nested lines)
    (hnewline : ∀ line ∈ lines, '\n' ∉ line) : checkNesting (Text.unlines lines) = .ok () := by
  rw [checkNesting_eq_ok_iff_run, Text.lines_unlines hnewline, run_linesOfPieces]
  exact run_of_nested h [] 1

end TemplateSuite.Nesting
