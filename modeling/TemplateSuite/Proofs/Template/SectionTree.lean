import TemplateSuite.Proofs.Template.Scan
import TemplateSuite.Proofs.Traversal

namespace TemplateSuite

namespace Scan

/-- The sections that scanning a text and all bodies in it finds, each before those inside it. -/
def sectionsWithin (text : Text) (firstLine : Nat) : Except NestingError (List Section) :=
  match _hscan : scan text firstLine with
  | .error e => .error e
  | .ok items => do
    let nested ← items.attach.mapM fun
      | ⟨.text .., _⟩ => .ok []
      | ⟨.block s, _hmem⟩ => (sectionsWithin s.body s.bodyLine).map (s :: ·)
    return nested.flatten
termination_by text.length
decreasing_by exact length_body_lt_of_mem_scan _hscan _hmem

/-- The sections in one element, when those in a body are given. -/
def sectionsOfItem (inner : Text → Nat → Except NestingError (List Section)) :
    Item → Except NestingError (List Section)
  | .text .. => .ok []
  | .block s => (inner s.body s.bodyLine).map (s :: ·)

theorem sectionsWithin_eq {text : Text} {firstLine : Nat} {items : List Item}
    (h : scan text firstLine = .ok items) :
    sectionsWithin text firstLine =
      (items.mapM (sectionsOfItem sectionsWithin)).map List.flatten := by
  rw [sectionsWithin]
  split
  · rename_i hscan
    rw [h] at hscan
    cases hscan
  · rename_i found hscan
    rw [h] at hscan
    cases hscan
    conv => rhs; rw [← List.attach_map_subtype_val items, List.mapM_map]
    congr 1
    congr 1
    funext ⟨item, hmem⟩
    cases item <;> rfl

theorem map_heading_flatten {items : List Item} {nested : List (List Section)}
    (h : List.Forall₂ (fun item found => found.map Section.heading = itemHeadings item)
      items nested) :
    nested.flatten.map Section.heading = items.flatMap itemHeadings := by
  induction h with
  | nil => rfl
  | cons hitem _ ih => rw [List.flatten_cons, List.map_append, hitem, ih, List.flatMap_cons]

theorem scan_of_checkNesting {text : Text} (h : checkNesting text = .ok ()) (firstLine : Nat) :
    ∃ items, scan text firstLine = .ok items ∧ (∀ item ∈ items, Sound item) ∧
      headings firstLine (Text.lines text) = items.flatMap itemHeadings := by
  obtain ⟨items, hitems⟩ := exists_finds_of_checkNesting h firstLine
  have hnewline : ∀ line ∈ Text.lines text, '\n' ∉ line := fun _ hline =>
    Text.newline_not_mem_of_mem_lines hline
  exact ⟨items, hitems.scanLines_eq, hitems.sound hnewline, hitems.headings_eq hnewline⟩

theorem sectionsWithin_of_checkNesting {text : Text} (h : checkNesting text = .ok ())
    (firstLine : Nat) :
    ∃ found, sectionsWithin text firstLine = .ok found ∧
      found.map Section.heading = headings firstLine (Text.lines text) := by
  induction text, firstLine using scan_induction with
  | step text firstLine ih =>
      obtain ⟨items, hscan, hsound, hheadings⟩ := scan_of_checkNesting h firstLine
      have hitem : ∀ item ∈ items, ∃ found, sectionsOfItem sectionsWithin item = .ok found ∧
          found.map Section.heading = itemHeadings item := by
        intro item hmem
        cases item with
        | text line content => exact ⟨[], rfl, rfl⟩
        | block s =>
            obtain ⟨inner, hinner, hlines⟩ := ih hscan hmem (hsound _ hmem)
            refine ⟨s :: inner, ?_, ?_⟩
            · rw [sectionsOfItem, hinner]
              rfl
            · rw [List.map_cons, hlines]
              rfl
      obtain ⟨nested, hnested⟩ := Traversal.exists_forall₂_iff.mpr hitem
      have hmapM : items.mapM (sectionsOfItem sectionsWithin) = .ok nested :=
        Traversal.mapM_eq_ok_iff.mpr (hnested.imp fun _ _ hfound => hfound.1)
      refine ⟨nested.flatten, ?_, ?_⟩
      · rw [sectionsWithin_eq hscan, hmapM]
        rfl
      · rw [hheadings]
        exact map_heading_flatten (hnested.imp fun _ _ hfound => hfound.2)

end Scan

namespace Nesting

/-- The sections that the lines put on the stack, in order. -/
def pushed (stack : List OpenSection) (number : Nat) : List Text → List OpenSection
  | [] => []
  | line :: rest =>
    match step stack number (Line.classify line) with
    | .error _ => []
    | .ok next => next.take (next.length - stack.length) ++ pushed next (number + 1) rest

/-- The sections that the lines take off the stack, in order. -/
def popped (stack : List OpenSection) (number : Nat) : List Text → List OpenSection
  | [] => []
  | line :: rest =>
    match step stack number (Line.classify line) with
    | .error _ => []
    | .ok next => stack.take (stack.length - next.length) ++ popped next (number + 1) rest

/-- The section as the checker keeps it while it is open. -/
def openSection (h : Heading) : OpenSection :=
  ⟨h.tag, h.line⟩

theorem pushed_of_run {stack final : List OpenSection} {number : Nat} {lines : List Text}
    (h : run stack number lines = .ok final) :
    pushed stack number lines =
      ((openings number lines).filter (!·.closed)).map fun o => openSection o.heading := by
  induction lines generalizing stack number with
  | nil => rfl
  | cons line rest ih =>
      rw [pushed, openings, List.filter_append, List.map_append]
      rcases run_cons_cases h with ⟨hline, hrest⟩ | ⟨tag, argument, hopen, hrest⟩ |
        ⟨innermost, outer, rfl, hclose, hrest⟩
      · rw [step_of_none hline]
        dsimp only
        rw [ih hrest]
        rcases Line.delimiter?_eq_none.mp hline with hkind | ⟨tag, argument, hkind⟩
        · simp [hkind, Line.opening?]
        · simp [hkind, Line.opening?]
      · rw [hopen, step]
        dsimp only
        rw [ih hrest]
        simp [Line.opening?, openSection]
      · rw [hclose, step, if_pos rfl]
        dsimp only
        rw [ih hrest]
        simp [Line.opening?]

theorem popped_perm_of_run {stack final : List OpenSection} {number : Nat} {lines : List Text}
    (h : run stack number lines = .ok final) :
    (popped stack number lines ++ final).Perm (pushed stack number lines ++ stack) := by
  induction lines generalizing stack number with
  | nil =>
      cases h
      exact .refl _
  | cons line rest ih =>
      rw [popped, pushed]
      rcases run_cons_cases h with ⟨hline, hrest⟩ | ⟨tag, argument, hopen, hrest⟩ |
        ⟨innermost, outer, rfl, hclose, hrest⟩
      · rw [step_of_none hline]
        simpa using ih hrest
      · rw [hopen, step]
        simpa using (ih hrest).trans List.perm_middle
      · rw [hclose, step, if_pos rfl]
        simpa using ((ih hrest).cons innermost).trans List.perm_middle.symm

/-- The checker and the scanner agree at every depth. -/
theorem scan_agrees_with_checkNesting {text : Text} (h : checkNesting text = .ok ())
    (firstLine : Nat) :
    (∃ items, scan text firstLine = .ok items ∧
      (∀ line content, .text line content ∈ items → Line.classify content = .text) ∧
        ∀ s, .block s ∈ items → checkNesting s.body = .ok ()) ∧
      (∃ found, Scan.sectionsWithin text firstLine = .ok found ∧
        found.map Section.heading = (openings firstLine (Text.lines text)).map (·.heading)) ∧
      pushed [] 1 (Text.lines text) =
        ((openings 1 (Text.lines text)).filter (!·.closed)).map (fun o => openSection o.heading) ∧
      (popped [] 1 (Text.lines text)).Perm (pushed [] 1 (Text.lines text)) := by
  obtain ⟨items, hscan, hsound, -⟩ := Scan.scan_of_checkNesting h firstLine
  have hrun := checkNesting_eq_ok_iff_run.mp h
  refine ⟨⟨items, hscan, fun _ _ hmem => hsound _ hmem, fun _ hmem => hsound _ hmem⟩,
    Scan.sectionsWithin_of_checkNesting h firstLine, pushed_of_run hrun, ?_⟩
  simpa using popped_perm_of_run hrun

theorem sections_of_nested_directories :
    checkNesting "@dir a\r\n@file b.c $m() @file_\n@dir sub\n\n@dir_\n\n@dir_\n" = .ok () ∧
      ∃ found, Scan.sectionsWithin
          "@dir a\r\n@file b.c $m() @file_\n@dir sub\n\n@dir_\n\n@dir_\n" 5 = .ok found ∧
        found.map Section.heading =
          [⟨"dir", "a", 5⟩, ⟨"file", "b.c $m()", 6⟩, ⟨"dir", "sub", 7⟩] := by
  have h : checkNesting "@dir a\r\n@file b.c $m() @file_\n@dir sub\n\n@dir_\n\n@dir_\n" = .ok () :=
    by decide
  obtain ⟨found, hfound, hheadings⟩ := (scan_agrees_with_checkNesting h 5).2.1
  refine ⟨h, found, hfound, hheadings.trans ?_⟩
  decide

end Nesting

end TemplateSuite
