import TemplateSuite.Proofs.Template.NestingRun
import TemplateSuite.Template.Section

namespace TemplateSuite

/-- What an opening line says, and where it stands. -/
structure Heading where
  tag : Text
  argument : Text
  line : Nat
  deriving DecidableEq, Repr

/-- An opening line, which may also close its section. -/
structure Opening where
  heading : Heading
  closed : Bool
  deriving DecidableEq, Repr

def Section.heading (s : Section) : Heading :=
  ⟨s.tag, s.argument, s.line⟩

/-- The opening that a line is, if it has the given number. -/
def Line.opening? (number : Nat) : Line → Option Opening
  | .opening tag argument closed => some ⟨⟨tag, argument, number⟩, closed⟩
  | _ => none

/-- The openings among the lines, the first of which has the given number. -/
def openings (number : Nat) : List Text → List Opening
  | [] => []
  | line :: rest => ((Line.classify line).opening? number).toList ++ openings (number + 1) rest

def headings (number : Nat) (lines : List Text) : List Heading :=
  (openings number lines).map (·.heading)

namespace Scan

theorem headings_append (number : Nat) (front back : List Text) :
    headings number (front ++ back) =
      headings number front ++ headings (number + front.length) back := by
  induction front generalizing number with
  | nil => rfl
  | cons line rest ih =>
      simp only [headings, List.cons_append, openings, List.map_append, List.append_assoc,
        List.length_cons] at ih ⊢
      rw [ih (number + 1), show number + 1 + rest.length = number + (rest.length + 1) by omega]

theorem headings_cons_opening {line tag argument : Text} {closed : Bool}
    (h : Line.classify line = .opening tag argument closed) (number : Nat) (rest : List Text) :
    headings number (line :: rest) = ⟨tag, argument, number⟩ :: headings (number + 1) rest := by
  simp [headings, openings, h, Line.opening?]

theorem headings_cons_of_none {line : Text} {number : Nat}
    (h : (Line.classify line).opening? number = none) (rest : List Text) :
    headings number (line :: rest) = headings (number + 1) rest := by
  simp [headings, openings, h]

theorem headings_congr {front back : List Text}
    (h : front.map Line.classify = back.map Line.classify) (number : Nat) :
    headings number front = headings number back := by
  induction front generalizing back number with
  | nil =>
      obtain rfl : back = [] := by simpa using h.symm
      rfl
  | cons line rest ih =>
      obtain ⟨line', rest', rfl, hline, hrest⟩ := List.map_eq_cons_iff.mp h.symm
      have htail : headings (number + 1) rest = headings (number + 1) rest' :=
        ih hrest.symm (number + 1)
      simp only [headings, openings, List.map_append, hline] at htail ⊢
      rw [htail]

theorem headings_linesOfPieces (number : Nat) (pieces : List Text) :
    headings number (Text.linesOfPieces pieces) = headings number pieces := by
  obtain ⟨ending, hending, hkinds⟩ := Line.exists_kinds_eq_append pieces
  rw [headings_congr hkinds, headings_append]
  rcases hending with rfl | rfl
  · exact (List.append_nil _).symm
  · exact (List.append_nil _).symm

theorem splitAtClose?_cons_of_none {tag line : Text}
    (h : (Line.classify line).delimits? tag = none) (depth : Nat) (rest : List Text) :
    splitAtClose? tag depth (line :: rest) =
      (splitAtClose? tag depth rest).map fun (body, after) => (line :: body, after) := by
  rw [splitAtClose?.eq_def]
  simp only [h]

theorem splitAtClose?_cons_opening {tag line argument : Text}
    (h : Line.classify line = .opening tag argument false) (depth : Nat) (rest : List Text) :
    splitAtClose? tag depth (line :: rest) =
      (splitAtClose? tag (depth + 1) rest).map fun (body, after) => (line :: body, after) := by
  rw [splitAtClose?.eq_def]
  simp only [h, Line.delimits?, if_true]

theorem splitAtClose?_cons_closing {tag line : Text} (h : Line.classify line = .closing tag)
    (depth : Nat) (rest : List Text) :
    splitAtClose? tag (depth + 1) (line :: rest) =
      (splitAtClose? tag depth rest).map fun (body, after) => (line :: body, after) := by
  rw [splitAtClose?.eq_def]
  simp only [h, Line.delimits?, if_true]

theorem splitAtClose?_cons_close {tag line : Text} (h : Line.classify line = .closing tag)
    (rest : List Text) : splitAtClose? tag 0 (line :: rest) = some ([], rest) := by
  rw [splitAtClose?.eq_def]
  simp only [h, Line.delimits?, if_true]

theorem delimits?_of_delimiter?_none {line : Line} (h : line.delimiter? = none) (tag : Text) :
    line.delimits? tag = none := by
  rcases Line.delimiter?_eq_none.mp h with rfl | ⟨found, argument, rfl⟩
  · rfl
  · rfl

/-- Whole sections are passed over, whatever their tags. -/
theorem splitAtClose?_append_of_nested {inner : List Text} (h : Nested inner) (tag : Text)
    (depth : Nat) (rest : List Text) :
    splitAtClose? tag depth (inner ++ rest) =
      (splitAtClose? tag depth rest).map fun (body, after) => (inner ++ body, after) := by
  induction h generalizing depth rest with
  | nil => simp
  | plain hline _ ih =>
      rw [List.cons_append, splitAtClose?_cons_of_none (delimits?_of_delimiter?_none hline tag), ih,
        Option.map_map]
      rfl
  | @enclose opener closer found argument inner after hopen hclose _ _ ihInner ihAfter =>
      rw [List.cons_append, List.append_assoc, List.cons_append]
      -- the lines of a section of another tag are not counted at all
      by_cases htag : found = tag
      · subst htag
        rw [splitAtClose?_cons_opening hopen, ihInner, splitAtClose?_cons_closing hclose, ihAfter]
        simp [Option.map_map, Function.comp_def]
      · have hopener : (Line.classify opener).delimits? tag = none := by
          simp [hopen, Line.delimits?, htag]
        have hcloser : (Line.classify closer).delimits? tag = none := by
          simp [hclose, Line.delimits?, htag]
        rw [splitAtClose?_cons_of_none hopener, ihInner, splitAtClose?_cons_of_none hcloser,
          ihAfter]
        simp [Option.map_map, Function.comp_def]

theorem splitAtClose?_of_nested {inner after : List Text} {closer tag : Text} (h : Nested inner)
    (hclose : Line.classify closer = .closing tag) :
    splitAtClose? tag 0 (inner ++ closer :: after) = some (inner, after) := by
  rw [splitAtClose?_append_of_nested h, splitAtClose?_cons_close hclose]
  simp

/-- What holds of every element of a well-nested text. -/
def Sound : Item → Prop
  | .text _ content => Line.classify content = .text
  | .block s => checkNesting s.body = .ok ()

/-- The headings of all sections in an element. -/
def itemHeadings : Item → List Heading
  | .text .. => []
  | .block s => s.heading :: headings s.bodyLine (Text.lines s.body)

theorem scanLines_cons_text {line : Text} (h : Line.classify line = .text) (number : Nat)
    (rest : List Text) :
    scanLines number (line :: rest) =
      (scanLines (number + 1) rest).map (.text number line :: ·) := by
  rw [scanLines]
  simp only [h]
  rfl

theorem scanLines_cons_selfClosing {line tag argument : Text}
    (h : Line.classify line = .opening tag argument true) (number : Nat) (rest : List Text) :
    scanLines number (line :: rest) =
      (scanLines (number + 1) rest).map (.block ⟨tag, argument, [], number⟩ :: ·) := by
  rw [scanLines]
  simp only [h]
  rfl

theorem scanLines_cons_section {opener closer tag argument : Text} {inner : List Text}
    (hopen : Line.classify opener = .opening tag argument false)
    (hclose : Line.classify closer = .closing tag) (hinner : Nested inner) (number : Nat)
    (after : List Text) :
    scanLines number (opener :: (inner ++ closer :: after)) =
      (scanLines (number + inner.length + 2) after).map
        (.block ⟨tag, argument, Text.unlines inner, number⟩ :: ·) := by
  rw [scanLines]
  simp only [hopen]
  split
  · rename_i hsplit
    rw [splitAtClose?_of_nested hinner hclose] at hsplit
    cases hsplit
  · rename_i hsplit
    rw [splitAtClose?_of_nested hinner hclose] at hsplit
    cases hsplit
    rfl

/-- The elements of well-nested lines, the first of which has the given number. -/
inductive Finds : (number : Nat) → List Text → List Item → Prop
  | nil (number : Nat) : Finds number [] []
  | text {number : Nat} {line : Text} {rest : List Text} {items : List Item} :
      Line.classify line = .text → Finds (number + 1) rest items →
        Finds number (line :: rest) (.text number line :: items)
  | selfClosing {number : Nat} {line tag argument : Text} {rest : List Text} {items : List Item} :
      Line.classify line = .opening tag argument true → Finds (number + 1) rest items →
        Finds number (line :: rest) (.block ⟨tag, argument, [], number⟩ :: items)
  | enclose {number : Nat} {opener closer tag argument : Text} {inner after : List Text}
      {items : List Item} :
      Line.classify opener = .opening tag argument false → Line.classify closer = .closing tag →
        Nested inner → Finds (number + inner.length + 2) after items →
          Finds number (opener :: (inner ++ closer :: after))
            (.block ⟨tag, argument, Text.unlines inner, number⟩ :: items)

theorem exists_finds {lines : List Text} (h : Nested lines) (number : Nat) :
    ∃ items, Finds number lines items := by
  induction h using Nested.induction generalizing number with
  | nil => exact ⟨[], .nil number⟩
  | text hkind _ ih =>
      obtain ⟨items, hitems⟩ := ih (number + 1)
      exact ⟨_, .text hkind hitems⟩
  | selfClosing hkind _ ih =>
      obtain ⟨items, hitems⟩ := ih (number + 1)
      exact ⟨_, .selfClosing hkind hitems⟩
  | @enclose opener closer tag argument inner after hopen hclose hinner _ _ ihAfter =>
      obtain ⟨items, hitems⟩ := ihAfter (number + inner.length + 2)
      exact ⟨_, .enclose hopen hclose hinner hitems⟩

theorem exists_finds_of_checkNesting {text : Text} (h : checkNesting text = .ok ())
    (firstLine : Nat) : ∃ items, Finds firstLine (Text.lines text) items :=
  exists_finds (Nesting.checkNesting_eq_ok_iff_nested.mp h) firstLine

namespace Finds

variable {number : Nat} {lines : List Text} {items : List Item}

theorem scanLines_append (h : Finds number lines items) (back : List Text) :
    scanLines number (lines ++ back) =
      (scanLines (number + lines.length) back).map (items ++ ·) := by
  induction h with
  | nil number =>
      rw [List.nil_append, List.length_nil, Nat.add_zero]
      cases scanLines number back <;> rfl
  | @text number line rest items hkind _ ih =>
      rw [List.cons_append, scanLines_cons_text hkind, ih, List.length_cons,
        show number + 1 + rest.length = number + (rest.length + 1) by omega]
      cases scanLines (number + (rest.length + 1)) back <;> rfl
  | @selfClosing number line tag argument rest items hkind _ ih =>
      rw [List.cons_append, scanLines_cons_selfClosing hkind, ih, List.length_cons,
        show number + 1 + rest.length = number + (rest.length + 1) by omega]
      cases scanLines (number + (rest.length + 1)) back <;> rfl
  | @enclose number opener closer tag argument inner after items hopen hclose hinner _ ih =>
      have hlength : number + inner.length + 2 + after.length =
          number + (opener :: (inner ++ closer :: after)).length := by
        simp only [List.length_cons, List.length_append]
        omega
      rw [List.cons_append, List.append_assoc, List.cons_append,
        scanLines_cons_section hopen hclose hinner, ih, hlength]
      cases scanLines (number + (opener :: (inner ++ closer :: after)).length) back <;> rfl

theorem scanLines_eq (h : Finds number lines items) : scanLines number lines = .ok items := by
  have happend := h.scanLines_append []
  rw [List.append_nil, scanLines] at happend
  rw [happend]
  exact congrArg Except.ok (List.append_nil items)

theorem sound (h : Finds number lines items) (hnewline : ∀ line ∈ lines, '\n' ∉ line) :
    ∀ item ∈ items, Sound item := by
  induction h with
  | nil => exact List.forall_mem_nil _
  | text hkind _ ih =>
      exact List.forall_mem_cons.mpr ⟨hkind, ih (List.forall_mem_cons.mp hnewline).2⟩
  | selfClosing _ _ ih =>
      exact List.forall_mem_cons.mpr ⟨rfl, ih (List.forall_mem_cons.mp hnewline).2⟩
  | enclose _ _ hinner _ ih =>
      refine List.forall_mem_cons.mpr ⟨Nesting.checkNesting_unlines hinner ?_, ih ?_⟩
      · exact fun line hmem => hnewline line (by simp [hmem])
      · exact fun line hmem => hnewline line (by simp [hmem])

theorem headings_eq (h : Finds number lines items) (hnewline : ∀ line ∈ lines, '\n' ∉ line) :
    headings number lines = items.flatMap itemHeadings := by
  induction h with
  | nil => rfl
  | text hkind _ ih =>
      rw [headings_cons_of_none (by rw [hkind]; rfl), ih (List.forall_mem_cons.mp hnewline).2]
      rfl
  | selfClosing hkind _ ih =>
      rw [headings_cons_opening hkind, ih (List.forall_mem_cons.mp hnewline).2]
      rfl
  | @enclose number opener closer tag argument inner after items hopen hclose _ _ ih =>
      have hafter := ih fun line hmem => hnewline line (by simp [hmem])
      have hbody : Text.lines (Text.unlines inner) = Text.linesOfPieces inner :=
        Text.lines_unlines fun line hmem => hnewline line (by simp [hmem])
      have hcloser : (Line.classify closer).opening? (number + 1 + inner.length) = none := by
        rw [hclose]
        rfl
      rw [headings_cons_opening hopen, headings_append, headings_cons_of_none hcloser,
        List.flatMap_cons, itemHeadings, Section.bodyLine, hbody, headings_linesOfPieces, ← hafter,
        show number + 1 + inner.length + 1 = number + inner.length + 2 by omega]
      rfl

end Finds

end Scan

end TemplateSuite
