import TemplateSuite.Proofs.Template.Concatenation

namespace TemplateSuite

/-- The section when `k` more lines stand before it. -/
def OpenSection.later (k : Nat) (s : OpenSection) : OpenSection :=
  ⟨s.tag, s.line + k⟩

/-- The error when `k` more lines stand before the text: every line number in it is `k` larger. -/
def NestingError.later (k : Nat) : NestingError → NestingError
  | .mismatched found line innermost => .mismatched found (line + k) (innermost.later k)
  | .unexpectedClose tag line => .unexpectedClose tag (line + k)
  | .unterminated sections => .unterminated (sections.map (OpenSection.later k))

namespace Nesting

variable (k number : Nat) (stack : List OpenSection)

theorem step_later (line : Line) :
    step (stack.map (OpenSection.later k)) (number + k) line =
      ((step stack number line).map (List.map (OpenSection.later k))).mapError
        (NestingError.later k) := by
  cases line with
  | text => rfl
  | opening tag argument closed => cases closed <;> rfl
  | closing tag =>
      cases stack with
      | nil => rfl
      | cons innermost outer =>
          by_cases htag : innermost.tag = tag
          · simp [step, OpenSection.later, htag, Except.map, Except.mapError]
          · simp [step, OpenSection.later, NestingError.later, htag, Except.map, Except.mapError]

theorem run_later (lines : List Text) :
    run (stack.map (OpenSection.later k)) (number + k) lines =
      ((run stack number lines).map (List.map (OpenSection.later k))).mapError
        (NestingError.later k) := by
  induction lines generalizing stack number with
  | nil => rfl
  | cons line rest ih =>
      rw [run, run, step_later]
      cases step stack number (Line.classify line) with
      | error e => rfl
      | ok next =>
          have hnumber : number + k + 1 = number + 1 + k := by omega
          simp only [Except.map, Except.mapError, hnumber]
          exact ih (number + 1) next

theorem checkNesting_append_eq {front : Text} (hline : front.EndsWithLine)
    (hfront : checkNesting front = .ok ()) (back : Text) :
    checkNesting (front ++ back) =
      (checkNesting back).mapError (NestingError.later (Text.lines front).length) := by
  have hrun : run [] 1 (Text.lines (front ++ back)) =
      ((run [] 1 (Text.lines back)).map
          (List.map (OpenSection.later (Text.lines front).length))).mapError
        (NestingError.later (Text.lines front).length) := by
    rw [Text.lines_append hline, run_append, checkNesting_eq_ok_iff_run.mp hfront]
    exact run_later _ 1 [] _
  rw [checkNesting, checkNesting, hrun]
  cases run [] 1 (Text.lines back) with
  | error e => rfl
  | ok stack =>
      cases stack with
      | nil => rfl
      | cons innermost outer => simp [Except.map, Except.mapError, NestingError.later]

/-- Checking and scanning distribute over well-nested text that ends with a line. -/
theorem check_and_scan_distribute {front : Text} (hline : front.EndsWithLine)
    (hfront : checkNesting front = .ok ()) (back : Text) (number : Nat) :
    (checkNesting (front ++ back) = .ok () ↔ checkNesting back = .ok ()) ∧
      (∀ e, checkNesting back = .error e →
        checkNesting (front ++ back) = .error (e.later (Text.lines front).length)) ∧
      ∃ found, scan front number = .ok found ∧
        scan (front ++ back) number =
          (scan back (number + (Text.lines front).length)).map (found ++ ·) := by
  have hcheck := checkNesting_append_eq hline hfront back
  obtain ⟨found, hfound, -⟩ := Scan.scan_of_checkNesting hfront number
  refine ⟨?_, fun e he => by rw [hcheck, he]; rfl, found, hfound, ?_⟩
  · rw [hcheck]
    cases checkNesting back <;> simp [Except.mapError]
  · rw [Scan.scan_append hline hfront, hfound]
    rfl

theorem stray_close_behind_section :
    Text.EndsWithLine "@a\n\n@a_\n" ∧ checkNesting "@a\n\n@a_\n" = .ok () ∧
      checkNesting "x\n@a_" = .error (.unexpectedClose "a" 2) ∧
      checkNesting ("@a\n\n@a_\n" ++ "x\n@a_") = .error (.unexpectedClose "a" 5) := by
  have hline : Text.EndsWithLine "@a\n\n@a_\n" := by decide
  have hfront : checkNesting "@a\n\n@a_\n" = .ok () := by decide
  have hback : checkNesting "x\n@a_" = .error (.unexpectedClose "a" 2) := by decide
  exact ⟨hline, hfront, hback, (check_and_scan_distribute hline hfront _ 1).2.1 _ hback⟩

end Nesting

end TemplateSuite
