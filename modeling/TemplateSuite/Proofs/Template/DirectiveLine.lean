import TemplateSuite.Proofs.Macro.CallText
import TemplateSuite.Proofs.Template.DirectiveGrammar
import TemplateSuite.Proofs.Template.Scan

namespace TemplateSuite

namespace FileDirective

def renderExpect : Option UInt32 → Text
  | none => []
  | some n => ' ' :: (("@ok" : Text) ++ ' ' :: (Text.decimal n.toNat ++ ' ' :: ("@ok_" : Text)))

def render (d : FileDirective) : Text :=
  d.name ++ ' ' :: (d.call.render ++ renderExpect d.expect)

/-- The line that asks for the file. -/
def renderLine (d : FileDirective) : Text :=
  '@' :: (("file" : Text) ++ ' ' :: (render d ++ ' ' :: Line.closeMarker "file"))

/-- The directive comes back from its text. -/
structure IsPlain (d : FileDirective) : Prop where
  name_not_blank : ∀ c ∈ d.name, Text.isBlank c = false
  name_relative : Path.checkRelative d.name = .ok ()
  call : d.call.IsPlain

variable {d : FileDirective} {c : Char}

theorem IsPlain.name_ne_nil (h : d.IsPlain) : d.name ≠ [] := by
  intro hnil
  have hrelative := h.name_relative
  rw [hnil] at hrelative
  cases hrelative

theorem trim_render (h : d.IsPlain) : Text.trim (render d) = render d := by
  obtain ⟨first, rest, hname⟩ := List.exists_cons_of_ne_nil h.name_ne_nil
  apply Text.trim_of_ends
  · rw [render, hname]
    rintro c ⟨⟩
    exact h.name_not_blank first (hname ▸ List.mem_cons_self)
  · have hlast : ∃ front, render d = front ++ [')'] ∨ render d = front ++ ['_'] := by
      cases hexpect : d.expect with
      | none =>
          refine ⟨d.name ++ ' ' :: (d.call.name ++
            '(' :: Text.commaSeparated (d.call.args.map Argument.quote)), .inl ?_⟩
          simp [render, renderExpect, Call.render, hexpect]
      | some n =>
          refine ⟨d.name ++ ' ' :: (d.call.render ++
            ' ' :: (("@ok" : Text) ++ ' ' :: (Text.decimal n.toNat ++ ' ' :: ("@ok" : Text)))),
            .inr ?_⟩
          simp [render, renderExpect, hexpect]
    obtain ⟨front, hfront | hfront⟩ := hlast
    all_goals
      rw [hfront, List.getLast?_concat]
      rintro c ⟨⟩
      rfl

theorem classify_renderLine (h : d.IsPlain) :
    Line.classify (renderLine d) = .opening "file" (render d) true :=
  Line.classify_selfClosing ⟨List.cons_ne_nil _ _, List.all_eq_true.mp rfl⟩ (trim_render h)

theorem newline_not_mem_renderLine (h : d.IsPlain) : '\n' ∉ renderLine d := by
  have hname : '\n' ∉ d.name := fun hmem => by
    cases h.name_not_blank '\n' hmem
  have hcall : '\n' ∉ d.call.render :=
    Call.not_mem_render h.call (by decide) rfl fun arg harg => (h.call.args arg harg).no_newline
  have hexpect : '\n' ∉ renderExpect d.expect := by
    cases d.expect with
    | none => exact List.not_mem_nil
    | some n =>
        have hdigits : '\n' ∉ Text.decimal n.toNat := fun hmem =>
          absurd (Text.isDigit_of_mem_decimal hmem) (by decide)
        simp [renderExpect, hdigits]
  simp [renderLine, render, Line.closeMarker, hname, hcall, hexpect]

theorem scan_renderLine (h : d.IsPlain) (line : Nat) :
    scan (renderLine d) line = .ok [.block ⟨"file", render d, [], line⟩] := by
  have hlines : Text.lines (renderLine d) = [renderLine d] := by
    rw [Text.lines, List.splitOn_eq_singleton (newline_not_mem_renderLine h)]
    exact if_neg (List.cons_ne_nil _ _)
  rw [scan, hlines, Scan.scanLines_cons_selfClosing (classify_renderLine h), scanLines]
  rfl

def writtenExpect (n : UInt32) : WrittenExpect :=
  ⟨" ", " ", Text.decimal n.toNat, " "⟩

/-- The parts that the text of the directive is made of. -/
def spelling (d : FileDirective) : Spelling :=
  ⟨d.name, " ", d.call.written, d.expect.map writtenExpect⟩

theorem isGap_space : IsGap " " := ⟨List.cons_ne_nil _ _, List.all_eq_true.mp rfl⟩

theorem hasForm_writtenExpect (n : UInt32) : (writtenExpect n).HasForm :=
  ⟨isGap_space, isGap_space, Text.decimal_ne_nil _, fun _ => Text.isDigit_of_mem_decimal, isGap_space⟩

theorem number_writtenExpect (n : UInt32) : (writtenExpect n).number = n.toNat :=
  (Text.readDecimal?_eq_some_iff.mp (Text.readDecimal?_decimal n.toNat)).2.2

theorem text_spelling (d : FileDirective) : (spelling d).text = render d := by
  have hexpect : (spelling d).expectText = renderExpect d.expect := by
    rw [Spelling.expectText, spelling, Option.map_map]
    cases d.expect with
    | none => rfl
    | some n => rfl
  rw [Spelling.text, hexpect]
  rfl

/-- The parts are put together at the right places, whatever the name and the arguments look like. -/
theorem IsPlain.isValid_spelling (h : d.IsPlain) : (spelling d).IsValid := by
  refine ⟨⟨h.name_ne_nil, h.name_not_blank, isGap_space, Call.hasForm_written h.call, ?_⟩,
    h.name_relative, ?_, ?_⟩
  all_goals
    intro e he
    obtain ⟨n, -, rfl⟩ := Option.map_eq_some_iff.mp he
  · exact hasForm_writtenExpect n
  · exact fun c => Text.isDigit_ascii_of_mem_decimal
  · rw [number_writtenExpect]
    exact n.toNat_lt

theorem IsPlain.directive_spelling (h : d.IsPlain) : (spelling d).directive = d := by
  have hexpect : ((d.expect.map writtenExpect).map fun e => UInt32.ofNat e.number) = d.expect := by
    rw [Option.map_map]
    refine (Option.map_congr fun n _ => ?_).trans Option.map_id'
    rw [Function.comp_apply, number_writtenExpect, UInt32.ofNat_toNat]
  rw [Spelling.directive, spelling, Call.call_written h.call, hexpect]

theorem parse_render (h : d.IsPlain) : parse (render d) = .ok d := by
  have htext : (spelling d).text = Text.trim (render d) := by
    rw [text_spelling, trim_render h]
  exact (h.isValid_spelling.toHasForm.parse_eq_ok_iff htext).mpr
    ⟨h.isValid_spelling, h.directive_spelling⟩

/-- A directive that is written on a line comes back from it. -/
theorem exists_parse_of_renderLine (h : d.IsPlain) (line : Nat) :
    ∃ argument, scan (renderLine d) line = .ok [.block ⟨"file", argument, [], line⟩] ∧
      parse argument = .ok d :=
  ⟨render d, scan_renderLine h line, parse_render h⟩

theorem markers_in_names_and_arguments_are_kept :
    IsPlain ⟨"@file_$a(1).c", ⟨"$m", [[], "a, [b", "[1]", "@ok 3 @ok_ @file_"]⟩, some 70⟩ ∧
      ∃ argument,
        scan ("@file @file_$a(1).c $m(\"\", \"a, [b\", \"[1]\", \"@ok 3 @ok_ @file_\")" ++
          " @ok 70 @ok_ @file_") 12 = .ok [.block ⟨"file", argument, [], 12⟩] ∧
        parse argument = .ok
          ⟨"@file_$a(1).c", ⟨"$m", [[], "a, [b", "[1]", "@ok 3 @ok_ @file_"]⟩, some 70⟩ := by
  have hargs : ∀ arg ∈ ([[], "a, [b", "[1]", "@ok 3 @ok_ @file_"] : List Text),
      Argument.IsPlain arg := by
    simp only [List.forall_mem_cons]
    exact ⟨⟨by decide, by decide, by decide, by decide⟩, ⟨by decide, by decide, by decide, by decide⟩,
      ⟨by decide, by decide, by decide, by decide⟩, ⟨by decide, by decide, by decide, by decide⟩,
      nofun⟩
  have hplain : IsPlain
      ⟨"@file_$a(1).c", ⟨"$m", [[], "a, [b", "[1]", "@ok 3 @ok_ @file_"]⟩, some 70⟩ :=
    ⟨fun c hc => Bool.eq_false_iff.mpr (List.any_eq_false.mp rfl c hc), by decide, ⟨"m", rfl, rfl⟩,
      hargs⟩
  exact ⟨hplain, exists_parse_of_renderLine hplain 12⟩

end FileDirective

end TemplateSuite
