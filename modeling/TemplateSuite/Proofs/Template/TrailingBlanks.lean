import TemplateSuite.Proofs.Template.LineGrammar
import TemplateSuite.Proofs.Template.Numbering
import TemplateSuite.Proofs.Template.SectionTree

namespace TemplateSuite

namespace Text

/-- White space that ends no line. -/
def IsPadding (blanks : Text) : Prop :=
  ∀ c ∈ blanks, isBlank c ∧ c ≠ '\n'

instance (blanks : Text) : Decidable (IsPadding blanks) :=
  List.decidableBAll _ blanks

/-- The text with white space put at its end. -/
def Padded (text padded : Text) : Prop :=
  ∃ blanks, IsPadding blanks ∧ padded = text ++ blanks

/-- The text with white space put at the ends of its lines, before their endings. What follows the last
newline is no line if it is empty. -/
inductive LinesPadded : Text → Text → Prop
  | nil : LinesPadded [] []
  | last {line blanks : Text} : line ≠ [] → '\n' ∉ line → IsPadding blanks →
      LinesPadded line (line ++ blanks)
  | cons {line blanks ending rest rest' : Text} : '\n' ∉ line → IsPadding blanks →
      ending = ['\n'] ∨ ending = ['\r', '\n'] → LinesPadded rest rest' →
        LinesPadded (line ++ (ending ++ rest)) (line ++ blanks ++ (ending ++ rest'))

variable {text padded line blanks : Text}

theorem IsPadding.isBlank (h : IsPadding blanks) : ∀ c ∈ blanks, isBlank c :=
  fun c hc => (h c hc).1

theorem IsPadding.newline_not_mem (h : IsPadding blanks) : '\n' ∉ blanks :=
  fun hmem => (h _ hmem).2 rfl

theorem IsPadding.append {others : Text} (h : IsPadding blanks) (hothers : IsPadding others) :
    IsPadding (blanks ++ others) :=
  fun c hc => (List.mem_append.mp hc).elim (h c) (hothers c)

theorem Padded.classify_eq (h : Padded text padded) :
    Line.classify text = Line.classify padded := by
  obtain ⟨blanks, hblanks, rfl⟩ := h
  exact (Line.classify_append_blank text hblanks.isBlank).symm

theorem dropReturn_concat (text : Text) (c : Char) :
    dropReturn (text ++ [c]) = if c = '\r' then text else text ++ [c] := by
  rw [dropReturn]
  split
  · rename_i hc
    rw [hc, before?_eq_some_iff.mpr rfl]
    rfl
  · rename_i hc
    cases hbefore : before? ['\r'] (text ++ [c]) with
    | none => rfl
    | some kept =>
        have hends := (List.append_inj' (before?_eq_some_iff.mp hbefore) rfl).2
        exact absurd (List.singleton_inj.mp hends) hc

theorem padded_dropReturn (hline : '\n' ∉ line) (h : IsPadding blanks) :
    Padded (dropReturn line) (dropReturn (line ++ blanks)) := by
  rcases List.eq_nil_or_concat blanks with rfl | ⟨front, c, rfl⟩
  · exact ⟨[], nofun, by simp⟩
  · obtain ⟨returns, hreturns, heq⟩ := eq_dropReturn_append line
    have hpadding : IsPadding returns := fun d hd =>
      ⟨hreturns d hd, fun hd' => hline (heq ▸ List.mem_append_right _ (hd' ▸ hd))⟩
    rw [List.concat_eq_append] at h ⊢
    rw [← List.append_assoc, dropReturn_concat]
    split
    · refine ⟨returns ++ front, hpadding.append fun d hd => h d (List.mem_append_left _ hd), ?_⟩
      rw [← List.append_assoc, ← heq]
    · refine ⟨returns ++ (front ++ [c]), hpadding.append h, ?_⟩
      rw [← List.append_assoc, ← heq, List.append_assoc]

theorem lines_cons (hline : '\n' ∉ line) (rest : Text) :
    lines (line ++ '\n' :: rest) = dropReturn line :: lines rest := by
  rw [lines_append_newline, List.splitOn_eq_singleton hline]
  rfl

theorem lines_of_newline_not_mem (hne : line ≠ []) (hline : '\n' ∉ line) : lines line = [line] := by
  rw [lines, List.splitOn_eq_singleton hline, linesOfPieces, if_neg hne]

theorem lines_padded (h : LinesPadded text padded) :
    List.Forall₂ Padded (lines text) (lines padded) := by
  induction h with
  | nil => exact .nil
  | @last line blanks hne hline hblanks =>
      rw [lines_of_newline_not_mem hne hline, lines_of_newline_not_mem (by simp [hne])
        (by simp [hline, hblanks.newline_not_mem])]
      exact .cons ⟨blanks, hblanks, rfl⟩ .nil
  | @cons line blanks ending rest rest' hline hblanks hending _ ih =>
      have hpadded : '\n' ∉ line ++ blanks := by simp [hline, hblanks.newline_not_mem]
      rcases hending with rfl | rfl
      · rw [List.singleton_append, List.singleton_append, lines_cons hline, lines_cons hpadded]
        exact .cons (padded_dropReturn hline hblanks) ih
      · have hreturn : ∀ text : Text, dropReturn (text ++ ['\r']) = text := fun text =>
          (dropReturn_concat text '\r').trans (if_pos rfl)
        have hsplit : ∀ text after : Text, text ++ (['\r', '\n'] ++ after) =
            (text ++ ['\r']) ++ '\n' :: after := by simp
        rw [hsplit, hsplit, lines_cons (by simp [hline]), lines_cons (by simpa using hpadded), hreturn,
          hreturn]
        exact .cons ⟨blanks, hblanks, rfl⟩ ih

end Text

/-- The elements differ in white space at the ends of text lines and of the lines of bodies only. -/
inductive Item.Padded : Item → Item → Prop
  | text {number : Nat} {content padded : Text} : Text.Padded content padded →
      Padded (.text number content) (.text number padded)
  | block {tag argument body padded : Text} {number : Nat} :
      List.Forall₂ Text.Padded (body.splitOn '\n') (padded.splitOn '\n') →
        Padded (.block ⟨tag, argument, body, number⟩) (.block ⟨tag, argument, padded, number⟩)

/-- A line without a newline and the same line with white space at its end. -/
def Text.PaddedLine (line padded : Text) : Prop :=
  '\n' ∉ line ∧ Text.Padded line padded

theorem Text.PaddedLine.newline_not_mem {line padded : Text} (h : Text.PaddedLine line padded) :
    '\n' ∉ padded := by
  obtain ⟨hline, blanks, hblanks, rfl⟩ := h
  exact List.not_mem_append hline hblanks.newline_not_mem

theorem Text.splitOn_unlines_padded {lines lines' : List Text}
    (h : List.Forall₂ Text.PaddedLine lines lines') :
    List.Forall₂ Text.Padded ((Text.unlines lines).splitOn '\n')
      ((Text.unlines lines').splitOn '\n') := by
  have hlines : ∀ line ∈ lines, '\n' ∉ line := ((List.forall₂_and_left _ _).mp h).1
  have hlines' : ∀ line ∈ lines', '\n' ∉ line :=
    ((List.forall₂_and_left _ _).mp (h.flip.imp fun _ _ hline =>
      ⟨Text.PaddedLine.newline_not_mem hline, hline⟩)).1
  cases h with
  | nil => exact .cons ⟨[], nofun, rfl⟩ .nil
  | cons hline hrest =>
      rw [Text.unlines, Text.unlines, List.splitOn_intercalate '\n' hlines (List.cons_ne_nil _ _),
        List.splitOn_intercalate '\n' hlines' (List.cons_ne_nil _ _)]
      exact (List.Forall₂.cons hline hrest).imp fun _ _ hpadded => hpadded.2

theorem Item.Related.padded {item item' : Item} (h : item.Related True Text.PaddedLine item') :
    item.Padded item' := by
  cases h with
  | text hnumber hcontent =>
      obtain rfl := hnumber trivial
      exact .text hcontent.2
  | block tag argument hnumber hbody =>
      obtain rfl := hnumber trivial
      exact .block (Text.splitOn_unlines_padded hbody)

namespace Line

variable {text padded : Text}

theorem paddedLine_lines (h : Text.LinesPadded text padded) :
    List.Forall₂ Text.PaddedLine (Text.lines text) (Text.lines padded) :=
  (List.forall₂_and_left _ _).mpr
    ⟨fun _ hline => Text.newline_not_mem_of_mem_lines hline, Text.lines_padded h⟩

theorem checkNesting_padded (h : Text.LinesPadded text padded) :
    checkNesting padded = checkNesting text := by
  have hkinds : (Text.lines text).map classify = (Text.lines padded).map classify := by
    rw [← List.forall₂_eq_eq_eq, List.forall₂_map_left_iff, List.forall₂_map_right_iff]
    exact (Text.lines_padded h).imp fun _ _ => Text.Padded.classify_eq
  rw [checkNesting, checkNesting, Nesting.run_congr hkinds]

theorem scan_padded (h : Text.LinesPadded text padded) (number : Nat) :
    SameEnd True (List.Forall₂ Item.Padded) (scan text number) (scan padded number) :=
  (Scan.scanLines_related (fun _ _ hline => hline.2.classify_eq) (fun _ => rfl)
    (paddedLine_lines h)).imp fun _ _ => List.Forall₂.imp fun _ _ => Item.Related.padded

/-- Every line is of the one kind whose form it has, and white space at the ends of lines takes no
part in it: the checker says the same, and the scanner finds the same elements. -/
theorem kinds_follow_the_grammar_up_to_trailing_blanks :
    (∀ line tag argument : Text, ∀ closed : Bool,
      (classify line = .closing tag ↔ IsClosing line tag) ∧
      ((∃ argument closed, classify line = .opening tag argument closed) ↔
        ∃ after, IsOpening line tag after) ∧
      (classify line = .opening tag argument closed ↔
        ∃ after, IsOpening line tag after ∧ Says tag after argument closed) ∧
      (classify line = .text ↔
        (∀ tag, ¬ IsClosing line tag) ∧ ∀ tag after, ¬ IsOpening line tag after)) ∧
    ∀ text padded : Text, Text.LinesPadded text padded → ∀ number : Nat,
      checkNesting padded = checkNesting text ∧
      SameEnd True (List.Forall₂ Item.Padded) (scan text number) (scan padded number) ∧
      (checkNesting text = .ok () → ∃ items items', scan text number = .ok items ∧
        scan padded number = .ok items' ∧ List.Forall₂ Item.Padded items items') := by
  refine ⟨fun line tag argument closed =>
    ⟨classify_eq_closing_iff, exists_opening_iff, classify_eq_opening_iff, classify_eq_text_iff⟩,
    fun text padded h number => ⟨checkNesting_padded h, scan_padded h number, fun hcheck => ?_⟩⟩
  obtain ⟨items, hscan, -⟩ := Scan.scan_of_checkNesting hcheck number
  have hend := scan_padded h number
  rw [hscan] at hend
  generalize hpadded : scan padded number = found at hend
  cases hend with
  | done hitems => exact ⟨items, _, hscan, rfl, hitems⟩

/-- The first section says `x @b_`, since one marker is taken off; the body of the second is a line
with nothing but the blank put there. -/
theorem blanks_after_markers_are_ignored :
    Text.LinesPadded "@b x @b_ @b_\r\n@a\n\n@a_" "@b x @b_ @b_ \r\n@a\t\n \n@a_\r" ∧
      checkNesting "@b x @b_ @b_\r\n@a\n\n@a_" = .ok () ∧
      ∃ items items', scan "@b x @b_ @b_\r\n@a\n\n@a_" 1 = .ok items ∧
        scan "@b x @b_ @b_ \r\n@a\t\n \n@a_\r" 1 = .ok items' ∧
        List.Forall₂ Item.Padded items items' := by
  have hclose : Text.LinesPadded ("@a_" : Text) (("@a_" : Text) ++ ['\r']) :=
    .last (by decide) (by decide) (by decide)
  have hbody : Text.LinesPadded ([] ++ (['\n'] ++ _)) ([] ++ [' '] ++ (['\n'] ++ _)) :=
    .cons (by decide) (by decide) (.inl rfl) hclose
  have hopen : Text.LinesPadded (("@a" : Text) ++ (['\n'] ++ _))
      (("@a" : Text) ++ ['\t'] ++ (['\n'] ++ _)) := .cons (by decide) (by decide) (.inl rfl) hbody
  have hpadded : Text.LinesPadded (("@b x @b_ @b_" : Text) ++ (['\r', '\n'] ++ _))
      (("@b x @b_ @b_" : Text) ++ [' '] ++ (['\r', '\n'] ++ _)) :=
    .cons (by decide) (by decide) (.inr rfl) hopen
  have hcheck : checkNesting "@b x @b_ @b_\r\n@a\n\n@a_" = .ok () := by decide
  exact ⟨hpadded, hcheck, (kinds_follow_the_grammar_up_to_trailing_blanks.2 _ _ hpadded 1).2.2 hcheck⟩

end Line

end TemplateSuite
