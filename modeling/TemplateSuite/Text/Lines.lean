import TemplateSuite.Text.Basic

/-!
Lines. A newline ends a line and a carriage return directly before it belongs to the ending. Text
after the last newline is a line of its own, unless it is empty, and keeps a carriage return.
-/

namespace TemplateSuite

namespace Text

/-- A line without the carriage return that its ending may begin with. -/
def dropReturn (line : Text) : Text :=
  (before? ['\r'] line).getD line

/-- The lines among the pieces between newlines: all but the last piece were ended by a newline. -/
def linesOfPieces : List Text → List Text
  | [] => []
  | [last] => if last = [] then [] else [last]
  | piece :: next :: rest => dropReturn piece :: linesOfPieces (next :: rest)

/-- The lines of a text, without their endings. -/
def lines (text : Text) : List Text :=
  linesOfPieces (text.splitOn '\n')

/-- The text whose lines are given, with a newline between neighbours and none at the end. -/
def unlines (lines : List Text) : Text :=
  ['\n'].intercalate lines

/-- The room lines take when each has an ending of one character. -/
def weight : List Text → Nat
  | [] => 0
  | line :: rest => line.length + 1 + weight rest

theorem weight_append (xs ys : List Text) : weight (xs ++ ys) = weight xs + weight ys := by
  induction xs with
  | nil => simp [weight]
  | cons line rest ih =>
    simp only [List.cons_append, weight, ih]
    omega

theorem length_unlines_le (lines : List Text) : (unlines lines).length ≤ weight lines := by
  induction lines with
  | nil => simp [unlines, weight]
  | cons line rest ih =>
    cases rest with
    | nil => simp [unlines, weight]
    | cons next rest =>
      simp only [unlines, List.intercalate_cons_cons, List.length_append, weight,
        List.length_singleton] at ih ⊢
      omega

theorem length_dropReturn_le (line : Text) : (dropReturn line).length ≤ line.length := by
  unfold dropReturn before?
  split <;> simp

theorem weight_linesOfPieces_le (pieces : List Text) :
    weight (linesOfPieces pieces) ≤ weight pieces := by
  induction pieces with
  | nil => simp [linesOfPieces]
  | cons piece rest ih =>
    cases rest with
    | nil =>
      unfold linesOfPieces
      split <;> simp [weight]
    | cons next rest =>
      have := length_dropReturn_le piece
      simp only [linesOfPieces, weight] at ih ⊢
      omega

theorem weight_eq_of_ne_nil {pieces : List Text} (h : pieces ≠ []) :
    weight pieces = (unlines pieces).length + 1 := by
  induction pieces with
  | nil => exact absurd rfl h
  | cons piece rest ih =>
    cases rest with
    | nil => simp [unlines, weight]
    | cons next rest =>
      have := ih (by simp)
      simp only [unlines, List.intercalate_cons_cons, List.length_append, weight,
        List.length_singleton] at this ⊢
      omega

theorem weight_lines_le (text : Text) : weight (lines text) ≤ text.length + 1 := by
  have split := weight_eq_of_ne_nil (List.splitOn_ne_nil '\n' text)
  have pieces := weight_linesOfPieces_le (text.splitOn '\n')
  rw [unlines, List.intercalate_splitOn] at split
  unfold lines
  omega

end Text

end TemplateSuite
