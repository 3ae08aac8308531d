import TemplateSuite.Proofs.Template.Line
import TemplateSuite.Template.Nesting

/-!
Well-nested lines. The opening and closing lines of a text are a word of delimiters; a word is well
nested if every section in it is closed by its own tag after the sections inside are closed. The
stack of open sections comes back from the lines exactly if they are well nested.
-/

namespace TemplateSuite

/-- What a line does to the sections around it: it opens one or closes one. -/
inductive Delimiter where
  | opens (tag : Text)
  | closes (tag : Text)
  deriving DecidableEq, Repr

/-- A line that opens and closes its section at once is no delimiter. -/
def Line.delimiter? : Line → Option Delimiter
  | .opening tag _ false => some (.opens tag)
  | .opening _ _ true => none
  | .closing tag => some (.closes tag)
  | .text => none

def delimiters (lines : List Text) : List Delimiter :=
  lines.filterMap fun line => (Line.classify line).delimiter?

/-- Words of delimiters in which every section is closed, innermost first. -/
inductive WellNested : List Delimiter → Prop
  | nil : WellNested []
  | enclose {tag : Text} {inner after : List Delimiter} :
      WellNested inner → WellNested after →
        WellNested (.opens tag :: (inner ++ .closes tag :: after))

/-- The lines go on with whole sections until one of them closes `tag`. -/
def ClosedBy (tag : Text) (lines : List Text) : Prop :=
  ∃ inner closer after, lines = inner ++ closer :: after ∧
    WellNested (delimiters inner) ∧ Line.classify closer = .closing tag

/-- Well-nested words, line by line. -/
inductive Nested : List Text → Prop
  | nil : Nested []
  | plain {line : Text} {rest : List Text} :
      (Line.classify line).delimiter? = none → Nested rest → Nested (line :: rest)
  | enclose {opener closer tag argument : Text} {inner after : List Text} :
      Line.classify opener = .opening tag argument false → Line.classify closer = .closing tag →
        Nested inner → Nested after → Nested (opener :: (inner ++ closer :: after))

theorem delimiters_append (front back : List Text) :
    delimiters (front ++ back) = delimiters front ++ delimiters back :=
  List.filterMap_append

theorem delimiters_cons_of_none {line : Text} (h : (Line.classify line).delimiter? = none)
    (rest : List Text) : delimiters (line :: rest) = delimiters rest :=
  List.filterMap_cons_none h

theorem delimiters_cons_of_some {line : Text} {d : Delimiter}
    (h : (Line.classify line).delimiter? = some d) (rest : List Text) :
    delimiters (line :: rest) = d :: delimiters rest :=
  List.filterMap_cons_some h

theorem Line.delimiter?_eq_opens {line : Line} {tag : Text} :
    line.delimiter? = some (.opens tag) ↔ ∃ argument, line = .opening tag argument false := by
  cases line with
  | opening found argument closed => cases closed <;> simp [Line.delimiter?]
  | closing found => simp [Line.delimiter?]
  | text => simp [Line.delimiter?]

theorem Line.delimiter?_eq_closes {line : Line} {tag : Text} :
    line.delimiter? = some (.closes tag) ↔ line = .closing tag := by
  cases line with
  | opening found argument closed => cases closed <;> simp [Line.delimiter?]
  | closing found => simp [Line.delimiter?]
  | text => simp [Line.delimiter?]

theorem Line.delimiter?_eq_none {line : Line} :
    line.delimiter? = none ↔ line = .text ∨ ∃ tag argument, line = .opening tag argument true := by
  cases line with
  | opening found argument closed => cases closed <;> simp [Line.delimiter?]
  | closing found => simp [Line.delimiter?]
  | text => simp [Line.delimiter?]

theorem Nested.text {line : Text} {rest : List Text} (h : Line.classify line = .text)
    (hrest : Nested rest) : Nested (line :: rest) :=
  .plain (Line.delimiter?_eq_none.mpr (.inl h)) hrest

theorem Nested.selfClosing {line tag argument : Text} {rest : List Text}
    (h : Line.classify line = .opening tag argument true) (hrest : Nested rest) :
    Nested (line :: rest) :=
  .plain (Line.delimiter?_eq_none.mpr (.inr ⟨tag, argument, h⟩)) hrest

/-- Induction over well-nested lines. A line outside of all sections is text, or it opens and closes
its section at once. -/
@[elab_as_elim]
theorem Nested.induction {motive : ∀ lines, Nested lines → Prop} (nil : motive [] .nil)
    (text : ∀ {line : Text} {rest : List Text} (hkind : Line.classify line = .text)
      (hrest : Nested rest), motive rest hrest → motive (line :: rest) (.text hkind hrest))
    (selfClosing : ∀ {line tag argument : Text} {rest : List Text}
      (hkind : Line.classify line = .opening tag argument true) (hrest : Nested rest),
        motive rest hrest → motive (line :: rest) (.selfClosing hkind hrest))
    (enclose : ∀ {opener closer tag argument : Text} {inner after : List Text}
      (hopen : Line.classify opener = .opening tag argument false)
      (hclose : Line.classify closer = .closing tag) (hinner : Nested inner)
      (hafter : Nested after), motive inner hinner → motive after hafter →
        motive (opener :: (inner ++ closer :: after)) (.enclose hopen hclose hinner hafter))
    {lines : List Text} (h : Nested lines) : motive lines h := by
  induction h with
  | nil => exact nil
  | plain hline hrest ih =>
      rcases Line.delimiter?_eq_none.mp hline with hkind | ⟨tag, argument, hkind⟩
      · exact text hkind hrest ih
      · exact selfClosing hkind hrest ih
  | enclose hopen hclose hinner hafter ihInner ihAfter =>
      exact enclose hopen hclose hinner hafter ihInner ihAfter

theorem Nested.wellNested {lines : List Text} (h : Nested lines) :
    WellNested (delimiters lines) := by
  induction h with
  | nil => exact .nil
  | plain hline _ ih =>
      rw [delimiters_cons_of_none hline]
      exact ih
  | enclose hopen hclose _ _ ihInner ihAfter =>
      rw [delimiters_cons_of_some (Line.delimiter?_eq_opens.mpr ⟨_, hopen⟩), delimiters_append,
        delimiters_cons_of_some (Line.delimiter?_eq_closes.mpr hclose)]
      exact .enclose ihInner ihAfter

theorem exists_close_of_wellNested {tag : Text} {lines : List Text}
    (h : WellNested (.opens tag :: delimiters lines)) :
    ∃ inner closer after, lines = inner ++ closer :: after ∧ Line.classify closer = .closing tag ∧
      WellNested (delimiters inner) ∧ WellNested (delimiters after) := by
  generalize hword : Delimiter.opens tag :: delimiters lines = word at h
  cases h with
  | nil => simp at hword
  | enclose hinner hafter =>
      obtain ⟨htag, hlines⟩ := List.cons.inj hword
      cases htag
      obtain ⟨front, back, rfl, rfl, hback⟩ := List.filterMap_eq_append_iff.mp hlines
      obtain ⟨plain, closer, after, rfl, hplain, hcloser, rfl⟩ :=
        List.filterMap_eq_cons_iff.mp hback
      have hnone : delimiters plain = [] := List.filterMap_eq_nil_iff.mpr hplain
      refine ⟨front ++ plain, closer, after, by simp, Line.delimiter?_eq_closes.mp hcloser, ?_,
        hafter⟩
      rw [delimiters_append, hnone, List.append_nil]
      exact hinner

theorem wellNested_delimiters_iff {lines : List Text} :
    WellNested (delimiters lines) ↔ Nested lines := by
  refine ⟨fun h => ?_, Nested.wellNested⟩
  -- the lines inside a section and after it are fewer, so the induction is on their number
  induction hlength : lines.length using Nat.strongRecOn generalizing lines with
  | _ n ih =>
      cases lines with
      | nil => exact .nil
      | cons line rest =>
          cases hline : (Line.classify line).delimiter? with
          | none =>
              rw [delimiters_cons_of_none hline] at h
              exact .plain hline (ih rest.length (by simp at hlength; omega) h rfl)
          | some d =>
              rw [delimiters_cons_of_some hline] at h
              cases d with
              | closes tag => nomatch h
              | opens tag =>
                  obtain ⟨argument, hopen⟩ := Line.delimiter?_eq_opens.mp hline
                  obtain ⟨inner, closer, after, rfl, hclose, hinner, hafter⟩ :=
                    exists_close_of_wellNested h
                  simp only [List.length_cons, List.length_append] at hlength
                  exact .enclose hopen hclose (ih inner.length (by omega) hinner rfl)
                    (ih after.length (by omega) hafter rfl)

end TemplateSuite
