import TemplateSuite.Proofs.Template.CommentFilter

namespace TemplateSuite

/-- The number of the first line of an element. -/
def Item.line : Item → Nat
  | .text line _ => line
  | .block s => s.line

/-- The element is a comment section. -/
def Item.isComment : Item → Bool
  | .text .. => false
  | .block s => decide (s.tag = Comment.tag)

namespace Scan

/-- The number of the line where the next element begins, or where the text ends. -/
def nextLine (stop : Nat) : List Item → Nat
  | [] => stop
  | item :: _ => item.line

/-- The numbers of the lines that the comments among the elements take, each from its opening line
up to the next element. -/
def commentSpans (stop : Nat) : List Item → List Nat
  | [] => []
  | item :: rest =>
    (if item.isComment then List.range' item.line (nextLine stop rest - item.line) else []) ++
      commentSpans stop rest

/-- The numbers of the lines in comments, found by scanning a text and all bodies in it. -/
def commentLines (text : Text) (firstLine : Nat) : Except NestingError (List Nat) :=
  match _hscan : scan text firstLine with
  | .error e => .error e
  | .ok items => do
    let nested ← items.attach.mapM fun
      | ⟨.text .., _⟩ => .ok []
      | ⟨.block s, _hmem⟩ => commentLines s.body s.bodyLine
    return commentSpans (firstLine + (Text.lines text).length) items ++ nested.flatten
termination_by text.length
decreasing_by exact length_body_lt_of_mem_scan _hscan _hmem

/-- The lines whose numbers are not among the given ones. -/
def linesExcept (numbers : List Nat) (firstLine : Nat) (lines : List Text) : List Text :=
  ((lines.zipIdx firstLine).filter fun p => decide (p.2 ∉ numbers)).map Prod.fst

/-- The lines in comments inside one element. -/
def commentLinesOfItem : Item → Except NestingError (List Nat)
  | .text .. => .ok []
  | .block s => commentLines s.body s.bodyLine

theorem commentLines_eq {text : Text} {firstLine : Nat} {items : List Item}
    (h : scan text firstLine = .ok items) :
    commentLines text firstLine = (items.mapM commentLinesOfItem).map fun nested =>
      commentSpans (firstLine + (Text.lines text).length) items ++ nested.flatten := by
  rw [commentLines]
  split
  · rename_i hscan
    rw [h] at hscan
    cases hscan
  · rename_i found hscan
    rw [h] at hscan
    cases hscan
    conv =>
      rhs
      rw [← List.attach_map_subtype_val items, List.mapM_map, List.attach_map_subtype_val]
    congr 1
    congr 1
    funext ⟨item, hmem⟩
    cases item <;> rfl

end Scan

namespace Comment

open Line

/-- The numbers of the lines that the filter leaves out. -/
def leftOut (depth number : Nat) : List Text → List Nat
  | [] => []
  | line :: rest =>
    (if hides depth (classify line) then [number] else []) ++
      leftOut (openAfter depth (classify line)) (number + 1) rest

variable {front back lines : List Text}

theorem mem_leftOut_bounds {depth number x : Nat} (h : x ∈ leftOut depth number lines) :
    number ≤ x ∧ x < number + lines.length := by
  induction lines generalizing depth number with
  | nil => simp [leftOut] at h
  | cons line rest ih =>
      rw [leftOut] at h
      rw [List.length_cons]
      rcases List.mem_append.mp h with hhere | hrest
      · split at hhere
        · rw [List.mem_singleton] at hhere
          omega
        · simp at hhere
      · have := ih hrest
        omega

theorem keep_eq_linesExcept (depth number : Nat) (lines : List Text) :
    keep depth lines = Scan.linesExcept (leftOut depth number lines) number lines := by
  induction lines generalizing depth number with
  | nil => rfl
  | cons line rest ih =>
      -- whether the first line is left out does not matter for the lines after it
      have hrest : ∀ p ∈ rest.zipIdx (number + 1),
          (p.2 ∉ leftOut depth number (line :: rest) ↔
            p.2 ∉ leftOut (openAfter depth (classify line)) (number + 1) rest) := by
        intro p hp
        have hlater : number + 1 ≤ p.2 := List.le_snd_of_mem_zipIdx hp
        rw [leftOut, List.mem_append, not_or, and_iff_right]
        split
        · rw [List.mem_singleton]
          omega
        · exact List.not_mem_nil
      have hfirst : number ∈ leftOut depth number (line :: rest) ↔
          hides depth (classify line) = true := by
        rw [leftOut, List.mem_append]
        constructor
        · rintro (hhere | hlater)
          · split at hhere
            · assumption
            · simp at hhere
          · have := mem_leftOut_bounds hlater
            omega
        · intro hhides
          simp [hhides]
      have hfilter : (rest.zipIdx (number + 1)).filter
            (fun p => decide (p.2 ∉ leftOut depth number (line :: rest))) =
          (rest.zipIdx (number + 1)).filter fun p =>
            decide (p.2 ∉ leftOut (openAfter depth (classify line)) (number + 1) rest) :=
        List.filter_congr fun p hp => decide_eq_decide.mpr (hrest p hp)
      rw [keep_cons, ih (openAfter depth (classify line)) (number + 1), Scan.linesExcept,
        Scan.linesExcept, List.zipIdx_cons, List.filter_cons, hfilter]
      by_cases hhides : hides depth (classify line) = true
      · simp [hhides, hfirst.mpr hhides]
      · simp [hhides, mt hfirst.mp hhides]

theorem leftOut_append (depth number : Nat) (front back : List Text) :
    leftOut depth number (front ++ back) =
      leftOut depth number front ++
        leftOut (openAfterLines depth front) (number + front.length) back := by
  induction front generalizing depth number with
  | nil => rfl
  | cons line rest ih =>
      rw [List.cons_append, leftOut, leftOut, ih, List.append_assoc, List.length_cons,
        show number + 1 + rest.length = number + (rest.length + 1) by omega]
      rfl

theorem openAfterLines_congr (h : front.map classify = back.map classify) (depth : Nat) :
    openAfterLines depth front = openAfterLines depth back := by
  have hmap (lines : List Text) :
      openAfterLines depth lines = (lines.map classify).foldl openAfter depth :=
    List.foldl_map.symm
  rw [hmap, hmap, h]

theorem leftOut_congr (h : front.map classify = back.map classify) (depth number : Nat) :
    leftOut depth number front = leftOut depth number back := by
  induction front generalizing back depth number with
  | nil =>
      obtain rfl : back = [] := by simpa using h.symm
      rfl
  | cons line rest ih =>
      obtain ⟨line', rest', rfl, hline, hrest⟩ := List.map_eq_cons_iff.mp h.symm
      rw [leftOut, leftOut, hline, ih hrest.symm]

theorem leftOut_append_of_nested (h : Nested front) (depth number : Nat) (back : List Text) :
    leftOut depth number (front ++ back) =
      leftOut depth number front ++ leftOut depth (number + front.length) back := by
  rw [leftOut_append, openAfterLines_of_nested h]

theorem leftOut_succ_cons (depth number : Nat) (line : Text) (rest : List Text) :
    leftOut (depth + 1) number (line :: rest) =
      number :: leftOut (openAfter (depth + 1) (classify line)) (number + 1) rest := by
  rw [leftOut, if_pos (hides_succ depth _), List.singleton_append]

theorem leftOut_succ_of_nested (h : Nested lines) (depth number : Nat) :
    leftOut (depth + 1) number lines = List.range' number lines.length := by
  induction h generalizing depth number with
  | nil => rfl
  | plain hline _ ih =>
      rw [leftOut_succ_cons, openAfter_of_none hline, ih, List.length_cons, List.range'_succ]
  | @enclose opener closer tag argument inner after hopen hclose hinner _ ihInner ihAfter =>
      obtain ⟨more, hmore⟩ := exists_openAfter_succ_opening depth tag argument
      have hback := openAfter_closing (depth + 1) tag argument
      rw [hmore] at hback
      rw [leftOut_succ_cons, hopen, hmore, leftOut_append_of_nested hinner, ihInner,
        leftOut_succ_cons, hclose, hback, ihAfter, List.length_cons, List.length_append,
        List.length_cons, List.range'_succ, ← List.range'_append_1, List.range'_succ]

theorem leftOut_comment {opener closer argument : Text} {inner : List Text}
    (hopen : classify opener = .opening Comment.tag argument false)
    (hclose : classify closer = .closing Comment.tag) (hinner : Nested inner) (number : Nat)
    (after : List Text) :
    leftOut 0 number (opener :: (inner ++ closer :: after)) =
      List.range' number (inner.length + 2) ++ leftOut 0 (number + inner.length + 2) after := by
  have hrange : List.range' number (inner.length + 2) =
      number :: (List.range' (number + 1) inner.length ++ [number + 1 + inner.length]) := by
    rw [List.range'_succ, List.range'_concat, Nat.one_mul]
  rw [leftOut, hopen, openAfter, if_pos rfl, leftOut_append_of_nested hinner,
    leftOut_succ_of_nested hinner, leftOut_succ_cons, hclose, openAfter, if_pos rfl, hrange]
  simp [hides, Nat.add_right_comm]

/-- Of any other section, what is left out of its body is left out. -/
theorem leftOut_section {opener closer tag argument : Text} {inner : List Text}
    (hopen : classify opener = .opening tag argument false) (htag : tag ≠ Comment.tag)
    (hclose : classify closer = .closing tag) (hinner : Nested inner) (number : Nat)
    (after : List Text) :
    leftOut 0 number (opener :: (inner ++ closer :: after)) =
      leftOut 0 (number + 1) inner ++ leftOut 0 (number + inner.length + 2) after := by
  rw [leftOut, hopen, openAfter, if_neg htag, leftOut_append_of_nested hinner, leftOut, hclose,
    openAfter, if_neg htag]
  simp [hides, htag, Nat.add_right_comm]

theorem leftOut_linesOfPieces (h : Nested lines) (number : Nat) :
    leftOut 0 number (Text.linesOfPieces lines) = leftOut 0 number lines := by
  obtain ⟨ending, hending, hkinds⟩ := Line.exists_kinds_eq_append lines
  have hblank : leftOut 0 (number + (Text.linesOfPieces lines).length) ending = [] ∧
      ∀ depth, openAfterLines depth ending = depth := by
    rcases hending with rfl | rfl
    · exact ⟨rfl, fun _ => rfl⟩
    · exact ⟨rfl, fun _ => rfl⟩
  have hopen : openAfterLines 0 (Text.linesOfPieces lines) = 0 := by
    have hlines := openAfterLines_congr hkinds 0
    rw [openAfterLines_of_nested h, openAfterLines_append, hblank.2] at hlines
    exact hlines.symm
  rw [leftOut_congr hkinds, leftOut_append, hopen, hblank.1, List.append_nil]

end Comment

namespace Scan

open Comment

theorem length_cons_eq (number : Nat) (line : Text) (rest : List Text) :
    number + (line :: rest).length = number + 1 + rest.length := by
  rw [List.length_cons]
  omega

theorem length_section_eq (number : Nat) (opener closer : Text) (inner after : List Text) :
    number + (opener :: (inner ++ closer :: after)).length =
      number + inner.length + 2 + after.length := by
  simp only [List.length_cons, List.length_append]
  omega

theorem Finds.nextLine_eq {number : Nat} {lines : List Text} {items : List Item}
    (h : Finds number lines items) : nextLine (number + lines.length) items = number := by
  cases h <;> rfl

/-- The filter leaves out the comments among the elements and, of the other sections, what it leaves
out of their bodies. -/
theorem Finds.mem_leftOut_iff {number : Nat} {lines : List Text} {items : List Item}
    (h : Finds number lines items) (hnewline : ∀ line ∈ lines, '\n' ∉ line) (x : Nat) :
    x ∈ leftOut 0 number lines ↔ x ∈ commentSpans (number + lines.length) items ∨
      ∃ s, .block s ∈ items ∧ x ∈ leftOut 0 s.bodyLine (Text.lines s.body) := by
  induction h with
  | nil => simp [leftOut, commentSpans]
  | @text number line rest items hkind _ ih =>
      rw [length_cons_eq, leftOut, hkind]
      simpa [hides, openAfter, commentSpans, Item.isComment] using
        ih (List.forall_mem_cons.mp hnewline).2
  | @selfClosing number line tag argument rest items hkind hrest ih =>
      have hbody : leftOut 0 (number + 1) (Text.lines []) = [] := rfl
      have hafter : openAfter 0 (.opening tag argument true) = 0 := rfl
      rw [length_cons_eq, leftOut, hkind, hafter, List.mem_append,
        ih (List.forall_mem_cons.mp hnewline).2, commentSpans, hrest.nextLine_eq]
      by_cases htag : tag = Comment.tag
      · simp [hides, htag, Item.isComment, Item.line, Section.bodyLine, hbody, or_assoc]
      · simp [hides, htag, Item.isComment, Section.bodyLine, hbody]
  | @enclose number opener closer tag argument inner after items hopen hclose hinner hafter ih =>
      have hmem := ih fun l hl => hnewline l (by simp [hl])
      have hbody : Text.lines (Text.unlines inner) = Text.linesOfPieces inner :=
        Text.lines_unlines fun l hl => hnewline l (by simp [hl])
      have hspan : number + inner.length + 2 - number = inner.length + 2 := by omega
      simp only [List.mem_cons, Item.block.injEq, exists_eq_or_imp, Section.bodyLine, hbody,
        leftOut_linesOfPieces hinner]
      rw [length_section_eq, commentSpans, hafter.nextLine_eq, Item.line, hspan]
      by_cases htag : tag = Comment.tag
      · subst htag
        have hinside : x ∈ leftOut 0 (number + 1) inner →
            x ∈ List.range' number (inner.length + 2) := by
          intro hx
          have := mem_leftOut_bounds hx
          rw [List.mem_range'_1]
          omega
        rw [leftOut_comment hopen hclose hinner, List.mem_append, hmem]
        simp only [Item.isComment, decide_true, if_true, List.mem_append]
        rw [or_assoc]
        refine or_congr_right' fun hout => or_congr_right ?_
        exact (or_iff_right (mt hinside hout)).symm
      · rw [leftOut_section hopen htag hclose hinner, List.mem_append, hmem]
        simp only [Item.isComment, htag, decide_false, Bool.false_eq_true, if_false,
          List.nil_append]
        exact or_left_comm

theorem mem_flatten_iff {α β : Type} {P : α → Prop} {x : β} {xs : List α} {found : List (List β)}
    (h : List.Forall₂ (fun a ys => x ∈ ys ↔ P a) xs found) :
    x ∈ found.flatten ↔ ∃ a ∈ xs, P a := by
  induction h with
  | nil => simp
  | cons hfirst _ ih => simp [hfirst, ih]

theorem commentLines_of_checkNesting {text : Text} (h : checkNesting text = .ok ())
    (firstLine : Nat) :
    ∃ found, commentLines text firstLine = .ok found ∧
      ∀ x, x ∈ found ↔ x ∈ leftOut 0 firstLine (Text.lines text) := by
  induction text, firstLine using scan_induction with
  | step text firstLine ih =>
      obtain ⟨items, hfinds⟩ := exists_finds_of_checkNesting h firstLine
      have hnewline : ∀ line ∈ Text.lines text, '\n' ∉ line := fun _ hline =>
        Text.newline_not_mem_of_mem_lines hline
      have hscan : scan text firstLine = .ok items := hfinds.scanLines_eq
      have hsound := hfinds.sound hnewline
      have hmem := hfinds.mem_leftOut_iff hnewline
      have hitem : ∀ item ∈ items, ∃ found, commentLinesOfItem item = .ok found ∧
          ∀ x, x ∈ found ↔
            ∃ s, item = .block s ∧ x ∈ leftOut 0 s.bodyLine (Text.lines s.body) := by
        intro item hitem
        cases item with
        | text line content => exact ⟨[], rfl, by simp⟩
        | block s =>
            obtain ⟨inner, hinner, hlines⟩ := ih hscan hitem (hsound _ hitem)
            exact ⟨inner, hinner, by simp [hlines]⟩
      obtain ⟨nested, hnested⟩ := Traversal.exists_forall₂_iff.mpr hitem
      have hmapM : items.mapM commentLinesOfItem = .ok nested :=
        Traversal.mapM_eq_ok_iff.mpr (hnested.imp fun _ _ hfound => hfound.1)
      refine ⟨_, by rw [commentLines_eq hscan, hmapM]; rfl, fun x => ?_⟩
      rw [List.mem_append, hmem, mem_flatten_iff (hnested.imp fun _ _ hfound => hfound.2 x)]
      simp

/-- The comment filter keeps the lines outside the comments of the section tree, and these lines are
well nested again. -/
theorem stripComments_agrees_with_section_tree {text : Text} (h : checkNesting text = .ok ())
    (firstLine : Nat) :
    ∃ found, commentLines text firstLine = .ok found ∧
      stripComments text = Text.unlines (linesExcept found firstLine (Text.lines text)) ∧
      WellNested (delimiters (linesExcept found firstLine (Text.lines text))) ∧
      checkNesting (stripComments text) = .ok () := by
  obtain ⟨found, hfound, hmem⟩ := commentLines_of_checkNesting h firstLine
  have hnested := nested_keep (Nesting.checkNesting_eq_ok_iff_nested.mp h)
  have hkept : keep 0 (Text.lines text) = linesExcept found firstLine (Text.lines text) := by
    rw [keep_eq_linesExcept 0 firstLine, linesExcept, linesExcept]
    simp only [hmem]
  refine ⟨found, hfound, ?_, ?_, ?_⟩
  · rw [stripComments, hkept]
  · rw [← hkept]
    exact hnested.wellNested
  · refine Nesting.checkNesting_unlines hnested fun line hline => ?_
    exact Text.newline_not_mem_of_mem_lines ((keep_sublist 0 _).subset hline)

theorem comment_around_sections_in_section :
    checkNesting "@a\n@comment\n@a\n@a_\n@comment_\nx\n@a_\n@comment y @comment_\n" = .ok () ∧
      ∃ found, commentLines
          "@a\n@comment\n@a\n@a_\n@comment_\nx\n@a_\n@comment y @comment_\n" 1 = .ok found ∧
        Text.unlines (linesExcept found 1 ["@a", "@comment", "@a", "@a_", "@comment_", "x", "@a_",
          "@comment y @comment_"]) = "@a\nx\n@a_" := by
  have h : checkNesting
      "@a\n@comment\n@a\n@a_\n@comment_\nx\n@a_\n@comment y @comment_\n" = .ok () := by decide
  have hlines : Text.lines "@a\n@comment\n@a\n@a_\n@comment_\nx\n@a_\n@comment y @comment_\n" =
      ["@a", "@comment", "@a", "@a_", "@comment_", "x", "@a_", "@comment y @comment_"] := by decide
  obtain ⟨found, hfound, hstrip, -, -⟩ := stripComments_agrees_with_section_tree h 1
  rw [hlines] at hstrip
  refine ⟨h, found, hfound, hstrip.symm.trans ?_⟩
  decide

end Scan

end TemplateSuite
