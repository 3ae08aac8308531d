import TemplateSuite.Proofs.Text.Blank
import TemplateSuite.Text.Lines

namespace TemplateSuite.Text

theorem not_mem_of_mem_splitOn {c : Char} {text piece : Text} (h : piece ∈ text.splitOn c) :
    c ∉ piece := by
  induction text generalizing piece with
  | nil => simp_all
  | cons d rest ih =>
      rw [List.splitOn_cons_eq_if_modifyHead] at h
      split at h
      · rcases List.mem_cons.mp h with rfl | hrest
        · exact List.not_mem_nil
        · exact ih hrest
      · rename_i hne
        obtain ⟨first, pieces, hsplit⟩ :=
          List.exists_cons_of_ne_nil (List.splitOn_ne_nil c rest)
        rw [hsplit] at h ih
        rcases List.mem_cons.mp h with rfl | hpieces
        · have hfirst : c ∉ first := ih List.mem_cons_self
          have hcd : c ≠ d := fun heq => hne (by simp [heq])
          simp [hcd, hfirst]
        · exact ih (List.mem_cons_of_mem _ hpieces)

theorem eq_dropReturn_append (line : Text) :
    ∃ blanks : Text, (∀ c ∈ blanks, isBlank c) ∧ line = dropReturn line ++ blanks := by
  unfold dropReturn before?
  split
  · rename_i hsuffix
    obtain ⟨kept, rfl⟩ := List.isSuffixOf_iff_suffix.mp hsuffix
    refine ⟨['\r'], ?_, by simp⟩
    intro c hc
    rw [List.mem_singleton.mp hc]
    rfl
  · exact ⟨[], by simp, by simp⟩

theorem mem_of_mem_dropReturn {c : Char} {line : Text} (h : c ∈ dropReturn line) : c ∈ line := by
  obtain ⟨blanks, -, hline⟩ := eq_dropReturn_append line
  rw [hline]
  exact List.mem_append_left _ h

theorem linesOfPieces_append (front : List Text) {back : List Text} (h : back ≠ []) :
    linesOfPieces (front ++ back) = front.map dropReturn ++ linesOfPieces back := by
  induction front with
  | nil => rfl
  | cons piece rest ih =>
      obtain ⟨next, others, hcons⟩ :=
        List.exists_cons_of_ne_nil (List.append_ne_nil_of_right_ne_nil rest h)
      rw [List.cons_append, hcons, linesOfPieces, ← hcons, ih, List.map_cons, List.cons_append]

theorem lines_append_newline (text after : Text) :
    lines (text ++ '\n' :: after) = (text.splitOn '\n').map dropReturn ++ lines after := by
  unfold lines
  rw [List.splitOn_append_cons_self, linesOfPieces_append _ (List.splitOn_ne_nil _ _)]

theorem newline_not_mem_of_mem_linesOfPieces {pieces : List Text}
    (h : ∀ piece ∈ pieces, '\n' ∉ piece) {line : Text} (hline : line ∈ linesOfPieces pieces) :
    '\n' ∉ line := by
  induction pieces with
  | nil => simp [linesOfPieces] at hline
  | cons piece rest ih =>
      cases rest with
      | nil =>
          unfold linesOfPieces at hline
          split at hline
          · simp at hline
          · exact h line hline
      | cons next others =>
          rcases List.mem_cons.mp hline with rfl | hrest
          · exact fun hmem => h piece List.mem_cons_self (mem_of_mem_dropReturn hmem)
          · exact ih (fun p hp => h p (List.mem_cons_of_mem _ hp)) hrest

theorem newline_not_mem_of_mem_lines {text line : Text} (h : line ∈ lines text) :
    '\n' ∉ line :=
  newline_not_mem_of_mem_linesOfPieces (fun _ hpiece => not_mem_of_mem_splitOn hpiece) h

theorem dropReturn_of_not_suffix {line : Text} (h : ¬ ['\r'] <:+ line) : dropReturn line = line := by
  rw [dropReturn, before?, if_neg (by simpa using h)]
  rfl

/-- The lines without a carriage return at their end, which the last one keeps. -/
def dropReturns : List Text → List Text
  | [] => []
  | [last] => [last]
  | line :: next :: rest => dropReturn line :: dropReturns (next :: rest)

/-- Where lines are joined and split again, each but the last loses a carriage return at its end, and
a blank last one is lost. -/
theorem exists_dropReturns_eq (lines : List Text) :
    ∃ ending : List Text, dropReturns lines = linesOfPieces lines ++ ending ∧
      (ending = [] ∧ lines.getLast? ≠ some [] ∨ ending = [[]] ∧ lines.getLast? = some []) := by
  induction lines with
  | nil => exact ⟨[], rfl, .inl ⟨rfl, by simp⟩⟩
  | cons line rest ih =>
      cases rest with
      | nil =>
          by_cases hempty : line = []
          · exact ⟨[[]], by simp [dropReturns, linesOfPieces, hempty], .inr ⟨rfl, by simp [hempty]⟩⟩
          · exact ⟨[], by simp [dropReturns, linesOfPieces, hempty], .inl ⟨rfl, by simpa using hempty⟩⟩
      | cons next others =>
          obtain ⟨ending, hlines, hending⟩ := ih
          refine ⟨ending, ?_, ?_⟩
          · rw [dropReturns, linesOfPieces, hlines, List.cons_append]
          · rwa [List.getLast?_cons_cons]

/-- No line ends with a carriage return. -/
def NoReturns (lines : List Text) : Prop :=
  ∀ line ∈ lines, ¬ ['\r'] <:+ line

instance (lines : List Text) : Decidable (NoReturns lines) :=
  List.decidableBAll _ lines

theorem NoReturns.map_dropReturn {lines : List Text} (h : NoReturns lines) :
    lines.map dropReturn = lines :=
  (List.map_congr_left fun line hline => dropReturn_of_not_suffix (h line hline)).trans
    (List.map_id lines)

theorem lines_unlines {body : List Text} (h : ∀ line ∈ body, '\n' ∉ line) :
    lines (unlines body) = linesOfPieces body := by
  cases body with
  | nil => rfl
  | cons line rest =>
      unfold lines unlines
      rw [List.splitOn_intercalate '\n' h (List.cons_ne_nil line rest)]

theorem splitOn_unlines {lines : List Text} (hne : lines ≠ []) (h : ∀ line ∈ lines, '\n' ∉ line) :
    (unlines lines).splitOn '\n' = lines :=
  List.splitOn_intercalate '\n' h hne

end TemplateSuite.Text
