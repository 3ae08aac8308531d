import TemplateSuite.Proofs.Template.SectionTree

namespace TemplateSuite

/-- No line of the text goes on after its end. -/
def Text.EndsWithLine (text : Text) : Prop :=
  text = [] ∨ ['\n'] <:+ text

instance (text : Text) : Decidable text.EndsWithLine :=
  inferInstanceAs (Decidable (_ ∨ _))

theorem Text.lines_append {front : Text} (h : front.EndsWithLine) (back : Text) :
    lines (front ++ back) = lines front ++ lines back := by
  rcases h with rfl | ⟨kept, rfl⟩
  · rfl
  · have hnil : lines [] = [] := rfl
    rw [List.append_assoc, List.singleton_append, lines_append_newline, lines_append_newline, hnil,
      List.append_nil]

theorem Nested.append {front back : List Text} (hfront : Nested front) (hback : Nested back) :
    Nested (front ++ back) := by
  induction hfront with
  | nil => exact hback
  | plain hline _ ih => exact .plain hline ih
  | enclose hopen hclose hinner _ _ ih =>
      rw [List.cons_append, List.append_assoc, List.cons_append]
      exact .enclose hopen hclose hinner ih

theorem Nesting.checkNesting_append {front back : Text} (hline : front.EndsWithLine)
    (hfront : checkNesting front = .ok ()) (hback : checkNesting back = .ok ()) :
    checkNesting (front ++ back) = .ok () := by
  rw [checkNesting_eq_ok_iff_nested] at hfront hback ⊢
  rw [Text.lines_append hline]
  exact hfront.append hback

namespace Scan

theorem scan_append {front : Text} (hline : front.EndsWithLine)
    (hfront : checkNesting front = .ok ()) (back : Text) (number : Nat) :
    scan (front ++ back) number =
      (scan front number).bind fun found =>
        (scan back (number + (Text.lines front).length)).map (found ++ ·) := by
  obtain ⟨items, hitems⟩ := exists_finds_of_checkNesting hfront number
  rw [scan, Text.lines_append hline, hitems.scanLines_append, scan, hitems.scanLines_eq]
  rfl

end Scan

end TemplateSuite
