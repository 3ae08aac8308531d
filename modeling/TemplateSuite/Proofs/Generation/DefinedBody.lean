import TemplateSuite.Proofs.Generation.Following
import TemplateSuite.Proofs.Template.DefinitionHeading
import TemplateSuite.Proofs.Template.SectionBody

namespace TemplateSuite.Definition

open Scan Processing

variable {text : Text}

theorem defineMacro_of_heading {s : Section} {w : WrittenHeading} (h : w.IsValid)
    (htext : w.text = Text.trim s.argument) (p : Progress) :
    ∃ events, defineMacro s p =
      (.ok (), { p with
        macros := p.macros.define (w.define (stripComments s.body)), events := p.events ++ events }) := by
  obtain ⟨events, -, hdefine⟩ := defineMacro_of_ok (ofSection_eq_ok_iff.mpr ⟨w, h, htext, rfl⟩) p
  exact ⟨events, hdefine p rfl⟩

/-- Every top-level definition of a checked text with a valid heading is carried out. The body of its
macro are the lines between the opening and the closing line outside comments, as splitting their text
gives them; these are the lines of the template exactly if they come through that unchanged. -/
theorem defined_body_is_lines_outside_comments (h : checkNesting text = .ok ()) (firstLine : Nat) :
    ∃ items found, scan text firstLine = .ok items ∧ commentLines text firstLine = .ok found ∧
      ∀ s, .block s ∈ items → s.tag = ("def" : Text) →
        (∃ inner, s.Encloses firstLine (Text.lines text) inner) ∧
        ∀ w : WrittenHeading, w.IsValid → w.text = Text.trim s.argument →
          ∀ inner, s.Encloses firstLine (Text.lines text) inner →
            ∃ body,
              (∀ p : Progress, ∃ events, defineMacro s p = (.ok (), { p with
                macros := p.macros.define (w.define body), events := p.events ++ events })) ∧
              body = Text.unlines (linesExcept found s.bodyLine (Text.linesOfPieces inner)) ∧
              (body = Text.unlines (linesExcept found s.bodyLine inner) ↔
                Intact found s.bodyLine inner) := by
  obtain ⟨items, hfinds⟩ := exists_finds_of_checkNesting h firstLine
  have hscan : scan text firstLine = .ok items := hfinds.scanLines_eq
  obtain ⟨found, hfound, -⟩ := commentLines_of_checkNesting h firstLine
  refine ⟨items, found, hscan, hfound, fun s hs htag => ⟨?_, fun w hw htext inner hinner => ?_⟩⟩
  · obtain ⟨inner, hinner, -⟩ := hfinds.exists_encloses s hs
    exact ⟨inner, hinner⟩
  · have htag' : s.tag ≠ Comment.tag := by
      rw [htag]
      decide
    obtain ⟨hbody, hintact⟩ := stripComments_body h hscan hfound hs htag' hinner
    exact ⟨stripComments s.body, defineMacro_of_heading hw htext, hbody, hintact⟩

section OneSection

variable {opener closer tag argument : Text} {inner : List Text}

theorem scan_of_one_section (hlines : Text.lines text = opener :: (inner ++ [closer]))
    (hopen : Line.classify opener = .opening tag argument false)
    (hclose : Line.classify closer = .closing tag) (hinner : Nested inner) (line : Nat) :
    scan text line = .ok [.block ⟨tag, argument, Text.unlines inner, line⟩] := by
  rw [scan, hlines, scanLines_cons_section hopen hclose hinner, scanLines]
  rfl

theorem encloses_of_one_section (hlines : Text.lines text = opener :: (inner ++ [closer]))
    (hopen : Line.classify opener = .opening tag argument false)
    (hclose : Line.classify closer = .closing tag) (hinner : Nested inner) (body : Text)
    (line : Nat) : Section.Encloses ⟨tag, argument, body, line⟩ line (Text.lines text) inner := by
  have hfront : Nested [] := .nil
  rw [hlines]
  exact .between hfront hopen hclose hinner rfl

end OneSection

theorem comment_in_a_definition_is_left_out :
    checkNesting "@def m (a,, $b)\nA\n@comment\nB\n@comment_\n\nC\n@def_\n" = .ok () ∧
      scan "@def m (a,, $b)\nA\n@comment\nB\n@comment_\n\nC\n@def_\n" 1 =
        .ok [.block ⟨"def", "m (a,, $b)", "A\n@comment\nB\n@comment_\n\nC", 1⟩] ∧
      ∀ p : Progress, ∃ events,
        defineMacro ⟨"def", "m (a,, $b)", "A\n@comment\nB\n@comment_\n\nC", 1⟩ p = (.ok (), { p with
          macros := p.macros.define ⟨"$m", "A\n\nC", ["$a", "$b"]⟩,
          events := p.events ++ events }) := by
  have h : checkNesting "@def m (a,, $b)\nA\n@comment\nB\n@comment_\n\nC\n@def_\n" = .ok () := by
    decide
  have hlines : Text.lines "@def m (a,, $b)\nA\n@comment\nB\n@comment_\n\nC\n@def_\n" =
      "@def m (a,, $b)" :: (["A", "@comment", "B", "@comment_", "", "C"] ++ ["@def_"]) := by decide
  have hopen : Line.classify "@def m (a,, $b)" = .opening "def" "m (a,, $b)" false := by decide
  have hclose : Line.classify "@def_" = .closing "def" := by decide
  have hinner : Nested ["A", "@comment", "B", "@comment_", "", "C"] := by
    have hcomment : Line.classify "@comment" = .opening Comment.tag [] false := by decide
    have hend : Line.classify "@comment_" = .closing Comment.tag := by decide
    have hinside : Nested ["B"] := .plain rfl .nil
    have hrest : Nested ["", "C"] := .plain rfl (.plain rfl .nil)
    exact .plain rfl (.enclose hcomment hend hinside hrest)
  have hvalid : WrittenHeading.IsValid ⟨"m", some ⟨" ", "a,, $b"⟩⟩ := by
    have hlist : WrittenList.HasForm ⟨" ", "a,, $b"⟩ := ⟨List.all_eq_true.mp rfl, by decide⟩
    refine ⟨⟨⟨"m", rfl, rfl⟩, ?_⟩, ?_⟩
    · rintro _ ⟨⟩
      exact hlist
    · have hparams : WrittenHeading.params ⟨"m", some ⟨" ", "a,, $b"⟩⟩ =
          (["a", "$b"] : List Text) := rfl
      rw [hparams, List.forall_mem_cons, List.forall_mem_cons]
      exact ⟨⟨"a", rfl, rfl⟩, ⟨"b", rfl, rfl⟩, nofun⟩
  have hscan := scan_of_one_section hlines hopen hclose hinner 1
  obtain ⟨items, found, hitems, hfound, hall⟩ := defined_body_is_lines_outside_comments h 1
  obtain rfl := Except.ok.inj (hscan.symm.trans hitems)
  obtain ⟨body, hdefine, hbody, -⟩ := (hall _ List.mem_cons_self rfl).2 _ hvalid (by decide) _
    (encloses_of_one_section hlines hopen hclose hinner _ 1)
  obtain ⟨_, hfound', hmem⟩ := commentLines_of_checkNesting h 1
  obtain rfl := Except.ok.inj (hfound.symm.trans hfound')
  -- `found` may list the comment lines in another order
  have hcomments : Comment.leftOut 0 1
      (Text.lines "@def m (a,, $b)\nA\n@comment\nB\n@comment_\n\nC\n@def_\n") = [3, 4, 5] := by
    rw [hlines]
    decide
  have hkept : linesExcept found 2 (["A", "@comment", "B", "@comment_", "", "C"] : List Text) =
      linesExcept [3, 4, 5] 2 (["A", "@comment", "B", "@comment_", "", "C"] : List Text) :=
    linesExcept_congr fun x _ _ => by rw [hmem, hcomments]
  have hresult : body = "A\n\nC" := hbody.trans ((congrArg Text.unlines hkept).trans (by decide))
  rw [hresult] at hdefine
  exact ⟨h, hscan, hdefine⟩

/-- A blank line before the close is a line of the template that the body does not have. -/
theorem blank_line_at_the_end_of_a_definition_is_lost :
    checkNesting "@def $m\nA\n\n@def_\n" = .ok () ∧
      scan "@def $m\nA\n\n@def_\n" 1 = .ok [.block ⟨"def", "$m", "A\n", 1⟩] ∧
      commentLines "@def $m\nA\n\n@def_\n" 1 = .ok [] ∧
      Section.Encloses ⟨"def", "$m", "A\n", 1⟩ 1 (Text.lines "@def $m\nA\n\n@def_\n") ["A", ""] ∧
      (∀ p : Progress, ∃ events, defineMacro ⟨"def", "$m", "A\n", 1⟩ p = (.ok (), { p with
        macros := p.macros.define ⟨"$m", "A", []⟩, events := p.events ++ events })) ∧
      Text.unlines (linesExcept [] 2 ["A", ""]) = "A\n" := by
  have h : checkNesting "@def $m\nA\n\n@def_\n" = .ok () := by decide
  have hlines : Text.lines "@def $m\nA\n\n@def_\n" =
      "@def $m" :: (["A", ""] ++ ["@def_"]) := by decide
  have hopen : Line.classify "@def $m" = .opening "def" "$m" false := by decide
  have hclose : Line.classify "@def_" = .closing "def" := by decide
  have hinner : Nested ["A", ""] := .plain rfl (.plain rfl .nil)
  refine ⟨h, scan_of_one_section hlines hopen hclose hinner 1, ?_,
    encloses_of_one_section hlines hopen hclose hinner _ 1, fun p => ?_, by decide⟩
  · obtain ⟨found, hfound, hmem⟩ := commentLines_of_checkNesting h 1
    have hnone : Comment.leftOut 0 1 (Text.lines "@def $m\nA\n\n@def_\n") = [] := by
      rw [hlines]
      decide
    have hnil : found = [] := List.eq_nil_iff_forall_not_mem.mpr fun x hx => by
      rw [hmem, hnone] at hx
      cases hx
    rw [hfound, hnil]
  · have hvalid : WrittenHeading.IsValid ⟨"$m", none⟩ := ⟨⟨⟨"m", rfl, rfl⟩, nofun⟩, nofun⟩
    exact defineMacro_of_heading hvalid (by decide) p

end TemplateSuite.Definition
