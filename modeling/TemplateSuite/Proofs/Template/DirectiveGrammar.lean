import TemplateSuite.Proofs.Macro.WrittenCall
import TemplateSuite.Proofs.Text.Decimal
import TemplateSuite.Template.Directive

namespace TemplateSuite

namespace FileDirective

/-- White space, of which there must be some. -/
structure IsGap (text : Text) : Prop where
  ne_nil : text ≠ []
  isBlank : ∀ c ∈ text, Text.isBlank c

/-- The digits of an expectation, and the white space before `@ok`, before the digits and before
`@ok_`. -/
structure WrittenExpect where
  before : Text
  beforeDigits : Text
  digits : Text
  beforeEnd : Text

/-- The parts of a directive, with the white space between the name and the call. -/
structure Spelling where
  name : Text
  gap : Text
  call : WrittenCall
  expect : Option WrittenExpect

namespace WrittenExpect

variable (e : WrittenExpect)

def text : Text :=
  e.before ++ (("@ok" : Text) ++ (e.beforeDigits ++ (e.digits ++ (e.beforeEnd ++ ("@ok_" : Text)))))

/-- The number that the digits denote. -/
def number : Nat :=
  Nat.ofDigitChars 10 e.digits 0

structure HasForm : Prop where
  before : IsGap e.before
  beforeDigits : IsGap e.beforeDigits
  digits_ne_nil : e.digits ≠ []
  isDigit : ∀ c ∈ e.digits, Text.isDigit c
  beforeEnd : IsGap e.beforeEnd

end WrittenExpect

namespace Spelling

variable (s : Spelling)

def expectText : Text :=
  (s.expect.map WrittenExpect.text).getD []

/-- The parts one after the other. -/
def text : Text :=
  s.name ++ (s.gap ++ (s.call.text ++ s.expectText))

def parts : Parts :=
  ⟨s.name, s.call.text, s.expect.map WrittenExpect.digits⟩

/-- What the parts say. -/
def directive : FileDirective :=
  ⟨s.name, s.call.call, s.expect.map fun e => UInt32.ofNat e.number⟩

/-- The parts can stand in a directive, as far as their form goes: the digits may be of any
script. -/
structure HasForm : Prop where
  name_ne_nil : s.name ≠ []
  name_not_blank : ∀ c ∈ s.name, Text.isBlank c = false
  gap : IsGap s.gap
  call : s.call.HasForm
  expect : ∀ e ∈ s.expect, e.HasForm

/-- The parts give a directive: the name stays below its directory, and the digits are ASCII digits
of a number that an expectation can have. -/
structure IsValid : Prop extends s.HasForm where
  name_relative : Path.checkRelative s.name = .ok ()
  isDigit_ascii : ∀ e ∈ s.expect, ∀ c ∈ e.digits, c.isDigit
  number_lt : ∀ e ∈ s.expect, e.number < 2 ^ 32

end Spelling

variable {text after digits : Text}

theorem IsGap.isBlank_head? {gap : Text} (h : IsGap gap) (rest : Text) :
    ∀ c ∈ (gap ++ rest).head?, Text.isBlank c := by
  obtain ⟨c, blanks, rfl⟩ := List.exists_cons_of_ne_nil h.ne_nil
  rintro d ⟨⟩
  exact h.isBlank c List.mem_cons_self

theorem afterBlank?_eq_some_iff :
    afterBlank? text = some after ↔
      ∃ gap, IsGap gap ∧ gap ++ after = text ∧ ∀ c ∈ after.head?, Text.isBlank c = false := by
  unfold afterBlank?
  constructor
  · intro h
    split at h
    · rename_i hblank
      cases h
      obtain ⟨c, rest, rfl⟩ : ∃ c rest, text = c :: rest := by
        cases text with
        | nil => cases hblank
        | cons c rest => exact ⟨c, rest, rfl⟩
      refine ⟨(c :: rest).takeWhile Text.isBlank, ⟨?_, fun d hd => List.mem_takeWhile_imp hd⟩,
        List.takeWhile_append_dropWhile, Text.not_of_head?_dropWhile _⟩
      have hc : Text.isBlank c := hblank
      rw [List.takeWhile_cons_of_pos hc]
      exact List.cons_ne_nil _ _
    · cases h
  · rintro ⟨gap, hgap, rfl, hafter⟩
    have hleft : Text.trimLeft (gap ++ after) = after := Text.dropWhile_run hgap.isBlank hafter
    have hhead : (gap ++ after).head?.any Text.isBlank := by
      obtain ⟨c, blanks, rfl⟩ := List.exists_cons_of_ne_nil hgap.ne_nil
      exact hgap.isBlank c List.mem_cons_self
    rw [if_pos hhead, hleft]

theorem afterBlank?_dropWhile (h : Text.trimLeft (text.dropWhile (!Text.isBlank ·)) ≠ []) :
    afterBlank? (text.dropWhile (!Text.isBlank ·)) =
      some (Text.trimLeft (text.dropWhile (!Text.isBlank ·))) := by
  have hhead := List.head?_dropWhile_not (!Text.isBlank ·) text
  cases hrest : text.dropWhile (!Text.isBlank ·) with
  | nil =>
      rw [hrest] at h
      exact absurd rfl h
  | cons c rest =>
      rw [hrest] at hhead
      exact if_pos (by simpa using hhead)

theorem IsGap.not_isDigit_head? {gap : Text} (h : IsGap gap) (rest : Text) :
    ∀ c ∈ (gap ++ rest).head?, Text.isDigit c = false := by
  intro c hc
  have hblank := h.isBlank_head? rest c hc
  rw [← Bool.not_eq_true]
  intro hdigit
  exact Bool.false_ne_true ((Text.isBlank_of_isDigit hdigit).symm.trans hblank)

theorem WrittenExpect.HasForm.isBlank_head?_digits {e : WrittenExpect} (h : e.HasForm)
    (rest : Text) : ∀ c ∈ (e.digits ++ rest).head?, Text.isBlank c = false := by
  intro c hc
  rw [List.head?_append_of_ne_nil _ h.digits_ne_nil] at hc
  exact Text.isBlank_of_isDigit (h.isDigit c (List.mem_of_head? hc))

theorem expectation?_eq_some_iff :
    expectation? text = some digits ↔
      ∃ e : WrittenExpect, e.HasForm ∧ e.text = text ∧ e.digits = digits := by
  simp only [expectation?, Option.bind_eq_bind, Option.bind_eq_some_iff,
    Option.ite_none_right_eq_some, Option.some.injEq]
  constructor
  · rintro ⟨marked, hmarked, opened, hopened, number, hnumber, closing, hclosing, ⟨hne, rfl⟩, rfl⟩
    obtain ⟨before, hbefore, rfl, -⟩ := afterBlank?_eq_some_iff.mp hmarked
    obtain rfl := Text.after?_eq_some_iff.mp hopened
    obtain ⟨beforeDigits, hbeforeDigits, rfl, -⟩ := afterBlank?_eq_some_iff.mp hnumber
    obtain ⟨beforeEnd, hbeforeEnd, hend, -⟩ := afterBlank?_eq_some_iff.mp hclosing
    refine ⟨⟨before, beforeDigits, number.takeWhile Text.isDigit, beforeEnd⟩,
      ⟨hbefore, hbeforeDigits, hne, fun c hc => List.mem_takeWhile_imp hc, hbeforeEnd⟩, ?_, rfl⟩
    rw [WrittenExpect.text, hend, List.takeWhile_append_dropWhile]
  · rintro ⟨e, h, rfl, rfl⟩
    have hrun := Text.takeWhile_run h.isDigit (h.beforeEnd.not_isDigit_head? "@ok_")
    have hrest := Text.dropWhile_run h.isDigit (h.beforeEnd.not_isDigit_head? "@ok_")
    refine ⟨_, afterBlank?_eq_some_iff.mpr ⟨e.before, h.before, rfl, ?_⟩, _,
      Text.after?_eq_some_iff.mpr rfl, _,
      afterBlank?_eq_some_iff.mpr ⟨e.beforeDigits, h.beforeDigits, rfl, h.isBlank_head?_digits _⟩,
      "@ok_", ?_, ⟨?_, rfl⟩, hrun⟩
    · rintro c ⟨⟩
      rfl
    · rw [hrest]
      exact afterBlank?_eq_some_iff.mpr ⟨e.beforeEnd, h.beforeEnd, rfl, by rintro c ⟨⟩; rfl⟩
    · rw [hrun]
      exact h.digits_ne_nil

/-- A call that stands before the text does not go on in it. -/
structure EndsCall (after : Text) : Prop where
  not_identifierChar : ∀ c ∈ after.head?, isIdentifierChar c = false
  no_list : Reference.listAtStart? (Text.trimLeft after) = none

theorem endsCall_nil : EndsCall [] := ⟨nofun, rfl⟩

theorem IsGap.endsCall_append {gap rest : Text} (h : IsGap gap)
    (hrest : ∀ c ∈ rest.head?, Text.isBlank c = false ∧ c ≠ '(') : EndsCall (gap ++ rest) := by
  refine ⟨fun c hc => isIdentifierChar_of_isBlank (h.isBlank_head? rest c hc), ?_⟩
  have hleft : Text.trimLeft (gap ++ rest) = rest :=
    Text.dropWhile_run h.isBlank fun c hc => (hrest c hc).1
  rw [hleft]
  unfold Reference.listAtStart?
  split
  · exact absurd rfl (hrest '(' rfl).2
  · rfl

theorem callAtStart?_append {c : WrittenCall} (h : c.HasForm) (hafter : EndsCall after) :
    callAtStart? (c.text ++ after) = some (c.text, after) := by
  rw [callAtStart?, h.nameAtStart?_append hafter.not_identifierChar]
  dsimp only
  unfold WrittenCall.text WrittenList.optionalText
  cases hlist : c.list with
  | none => simp [hafter.no_list]
  | some l =>
      have hform := h.list l hlist
      have hread : Reference.listAtStart? (Text.trimLeft (l.text ++ after)) = some (l.list, after) :=
        WrittenList.listAtStart?_trimLeft_eq_some_iff.mpr ⟨l, hform, rfl, rfl⟩
      simp only [Option.map_some, Option.getD_some, hread, hform.takeWhile_isBlank]
      simp [WrittenList.text]

theorem exists_of_callAtStart? {call : Text} (h : callAtStart? text = some (call, after)) :
    ∃ c : WrittenCall, c.HasForm ∧ c.text = call ∧ c.text ++ after = text := by
  unfold callAtStart? at h
  split at h
  · cases h
  · rename_i name rest hname
    obtain ⟨rfl, hcallee, -⟩ := eq_append_of_nameAtStart? hname
    split at h
    · rename_i list trailing hlist
      cases h
      obtain ⟨l, hl, rfl, rfl⟩ := WrittenList.listAtStart?_trimLeft_eq_some_iff.mp hlist
      refine ⟨⟨name, some l⟩, ⟨hcallee, by rintro _ ⟨⟩; exact hl⟩, ?_, ?_⟩
      · rw [hl.takeWhile_isBlank]
        simp [WrittenCall.text, WrittenList.optionalText, WrittenList.text]
      · simp [WrittenCall.text, WrittenList.optionalText]
    · cases h
      have hnone : ∀ l ∈ (none : Option WrittenList), l.HasForm := by rintro _ ⟨⟩
      exact ⟨⟨call, none⟩, ⟨hcallee, hnone⟩, by simp [WrittenCall.text, WrittenList.optionalText],
        by simp [WrittenCall.text, WrittenList.optionalText]⟩

theorem WrittenExpect.HasForm.endsCall {e : WrittenExpect} (h : e.HasForm) : EndsCall e.text :=
  h.before.endsCall_append (by rintro c ⟨⟩; decide)

namespace Spelling

variable {s s' : Spelling} {parts : Parts}

theorem HasForm.endsCall_expectText (h : s.HasForm) : EndsCall s.expectText := by
  unfold expectText
  cases hexpect : s.expect with
  | none => exact endsCall_nil
  | some e => exact (h.expect e hexpect).endsCall

theorem HasForm.expectText_eq_nil_iff (h : s.HasForm) : s.expectText = [] ↔ s.expect = none := by
  unfold expectText
  cases hexpect : s.expect with
  | none => exact iff_of_true rfl rfl
  | some e =>
      have hne : e.text ≠ [] := List.append_ne_nil_of_left_ne_nil (h.expect e hexpect).before.ne_nil _
      exact iff_of_false hne nofun

/-- The parts are cut apart where they were put together. -/
theorem HasForm.parts?_text (h : s.HasForm) : parts? s.text = some s.parts := by
  have hname : ∀ c ∈ s.name, (!Text.isBlank c) = true := fun c hc => by
    rw [h.name_not_blank c hc]
    rfl
  have hgap : ∀ c ∈ (s.gap ++ (s.call.text ++ s.expectText)).head?, (!Text.isBlank c) = false := by
    intro c hc
    rw [h.gap.isBlank_head? _ c hc]
    rfl
  have hcall : Text.trimLeft (s.gap ++ (s.call.text ++ s.expectText)) =
      s.call.text ++ s.expectText := Text.dropWhile_run h.gap.isBlank (h.call.isBlank_head? _)
  simp only [parts?, text, Text.takeWhile_run hname hgap, Text.dropWhile_run hname hgap, hcall,
    callAtStart?_append h.call h.endsCall_expectText, Option.bind_eq_bind, Option.bind_some,
    if_neg h.name_ne_nil, h.expectText_eq_nil_iff, Spelling.parts]
  cases hexpect : s.expect with
  | none => rfl
  | some e =>
      have hread : expectation? s.expectText = some e.digits := by
        rw [expectText, hexpect]
        exact expectation?_eq_some_iff.mpr ⟨e, h.expect e hexpect, rfl, rfl⟩
      rw [if_neg nofun, hread]
      rfl

theorem exists_of_parts? (h : parts? text = some parts) :
    ∃ s : Spelling, s.HasForm ∧ s.text = text ∧ s.parts = parts := by
  simp only [parts?, Option.bind_eq_bind, Option.bind_eq_some_iff] at h
  obtain ⟨⟨call, after⟩, hcall, h⟩ := h
  obtain ⟨c, hc, rfl, hrest⟩ := exists_of_callAtStart? hcall
  have hname : ∀ d ∈ text.takeWhile (!Text.isBlank ·), Text.isBlank d = false := fun d hd => by
    simpa using List.mem_takeWhile_imp hd
  -- the call begins with a sigil, so something stands after the name and white space before it
  have hcallee : Text.trimLeft (text.dropWhile (!Text.isBlank ·)) ≠ [] := by
    obtain ⟨identifier, hcallee, -⟩ := hc.callee
    rw [← hrest, WrittenCall.text, hcallee]
    exact List.cons_ne_nil _ _
  obtain ⟨gap, hgap, htext, -⟩ := afterBlank?_eq_some_iff.mp (afterBlank?_dropWhile hcallee)
  rw [← hrest] at htext
  have hwhole : text.takeWhile (!Text.isBlank ·) ++ (gap ++ (c.text ++ after)) = text := by
    rw [htext, List.takeWhile_append_dropWhile]
  split at h
  · cases h
  · rename_i hne
    split at h
    · rename_i hnil
      obtain rfl : after = [] := hnil
      cases h
      have hnone : ∀ e ∈ (none : Option WrittenExpect), e.HasForm := by rintro _ ⟨⟩
      exact ⟨⟨_, gap, c, none⟩, ⟨hne, hname, hgap, hc, hnone⟩, hwhole, rfl⟩
    · obtain ⟨digits, hdigits, hparts⟩ := Option.bind_eq_some_iff.mp h
      cases hparts
      obtain ⟨e, he, rfl, rfl⟩ := expectation?_eq_some_iff.mp hdigits
      exact ⟨⟨_, gap, c, some e⟩, ⟨hne, hname, hgap, hc, by rintro _ ⟨⟩; exact he⟩, hwhole, rfl⟩

end Spelling

theorem WrittenExpect.HasForm.eq_of_text_eq {e e' : WrittenExpect} (h : e.HasForm) (h' : e'.HasForm)
    (htext : e.text = e'.text) : e = e' := by
  -- every part is a run of one kind of characters, and the next part begins with another kind
  obtain ⟨hbefore, hopened⟩ := Text.append_inj_of_run h.before.isBlank h'.before.isBlank
    (by rintro c ⟨⟩; rfl) (by rintro c ⟨⟩; rfl) htext
  obtain ⟨hbeforeDigits, hnumber⟩ := Text.append_inj_of_run h.beforeDigits.isBlank
    h'.beforeDigits.isBlank (h.isBlank_head?_digits _) (h'.isBlank_head?_digits _)
    (List.append_cancel_left hopened)
  obtain ⟨hdigits, hclosing⟩ := Text.append_inj_of_run h.isDigit h'.isDigit
    (h.beforeEnd.not_isDigit_head? _) (h'.beforeEnd.not_isDigit_head? _) hnumber
  have hbeforeEnd : e.beforeEnd = e'.beforeEnd := List.append_cancel_right hclosing
  cases e
  cases e'
  cases hbefore
  cases hbeforeDigits
  cases hdigits
  cases hbeforeEnd
  rfl

namespace Spelling

variable {s s' : Spelling}

theorem HasForm.eq_of_text_eq (h : s.HasForm) (h' : s'.HasForm) (htext : s.text = s'.text) : s = s' := by
  have hparts : some s.parts = some s'.parts := by
    rw [← h.parts?_text, ← h'.parts?_text, htext]
  simp only [parts, Option.some.injEq, Parts.mk.injEq] at hparts
  -- the parts leave open only how much white space there is
  obtain ⟨hname, hcallText, -⟩ := hparts
  have hcall : s.call = s'.call := h.call.eq_of_text_eq h'.call hcallText
  rw [text, text, hname] at htext
  obtain ⟨hgap, hrest⟩ := Text.append_inj_of_run h.gap.isBlank h'.gap.isBlank (h.call.isBlank_head? _)
    (h'.call.isBlank_head? _) (List.append_cancel_left htext)
  rw [hcall] at hrest
  have hne : ∀ e : WrittenExpect, e.HasForm → e.text ≠ [] := fun e he =>
    List.append_ne_nil_of_left_ne_nil he.before.ne_nil _
  have hexpect : s.expect = s'.expect :=
    eq_of_optional_text_eq (fun e he => hne e (h.expect e he)) (fun e he => hne e (h'.expect e he))
      (fun e he e' he' => (h.expect e he).eq_of_text_eq (h'.expect e' he'))
      (List.append_cancel_left hrest)
  cases s
  cases s'
  cases hname
  cases hgap
  cases hcall
  cases hexpect
  rfl

end Spelling

namespace Spelling

variable {s : Spelling} {d : FileDirective} {text : Text}

theorem readExpect_ne_badCall (digits : Option Text) (call : Text) :
    readExpect digits ≠ .error (.badCall call) := by
  unfold readExpect
  split
  · nofun
  · split
    · split <;> nofun
    · nofun

/-- The digits are read if they are ASCII digits of a small number, and then as that number. -/
theorem readExpect_eq_ok_iff (h : s.HasForm) {expect : Option UInt32} :
    readExpect (s.expect.map WrittenExpect.digits) = .ok expect ↔
      (∀ e ∈ s.expect, (∀ c ∈ e.digits, c.isDigit) ∧ e.number < 2 ^ 32) ∧
        (s.expect.map fun e => UInt32.ofNat e.number) = expect := by
  cases hexpect : s.expect with
  | none => simp [readExpect]
  | some e =>
      have hne := (h.expect e hexpect).digits_ne_nil
      have hsize : UInt32.size = 2 ^ 32 := rfl
      simp only [Option.map_some, readExpect, Option.mem_def, Option.some.injEq, forall_eq', hsize]
      cases hread : Text.readDecimal? e.digits with
      | none =>
          refine iff_of_false nofun fun hall => ?_
          have hsome := Text.readDecimal?_eq_some_iff.mpr ⟨hne, hall.1.1, rfl⟩
          rw [hread] at hsome
          cases hsome
      | some n =>
          obtain ⟨-, hascii, hnumber⟩ := Text.readDecimal?_eq_some_iff.mp hread
          obtain rfl : e.number = n := hnumber
          dsimp only
          split
          · rename_i hlt
            rw [Except.ok.injEq]
            exact (and_iff_right ⟨hascii, hlt⟩).symm
          · rename_i hlt
            exact iff_of_false nofun fun hall => hlt hall.1.2

theorem HasForm.parse_of_unsafe (h : s.HasForm) (htext : s.text = Text.trim text)
    {fault : UnsafePath} (hname : Path.checkRelative s.name = .error fault) :
    parse text = .error (.unsafePath fault) := by
  simp only [parse, ← htext, h.parts?_text, parts, hname]

theorem HasForm.parse_of_unread (h : s.HasForm) (htext : s.text = Text.trim text)
    (hname : Path.checkRelative s.name = .ok ()) {fault : DirectiveFault}
    (hread : readExpect (s.expect.map WrittenExpect.digits) = .error fault) :
    parse text = .error fault := by
  simp only [parse, ← htext, h.parts?_text, parts, hname, h.call.parse?_text, hread]

theorem HasForm.parse_of_read (h : s.HasForm) (htext : s.text = Text.trim text)
    (hname : Path.checkRelative s.name = .ok ()) {expect : Option UInt32}
    (hread : readExpect (s.expect.map WrittenExpect.digits) = .ok expect) :
    parse text = .ok ⟨s.name, s.call.call, expect⟩ := by
  simp only [parse, ← htext, h.parts?_text, parts, hname, h.call.parse?_text, hread]

theorem HasForm.parse_eq_ok_iff (h : s.HasForm) (htext : s.text = Text.trim text) :
    parse text = .ok d ↔ s.IsValid ∧ s.directive = d := by
  cases hname : Path.checkRelative s.name with
  | error fault =>
      rw [h.parse_of_unsafe htext hname]
      refine iff_of_false nofun fun hvalid => ?_
      rw [hvalid.1.name_relative] at hname
      cases hname
  | ok checked =>
      cases hread : readExpect (s.expect.map WrittenExpect.digits) with
      | error fault =>
          rw [h.parse_of_unread htext hname hread]
          refine iff_of_false nofun fun hvalid => ?_
          have hok := (readExpect_eq_ok_iff h).mpr
            ⟨fun e he => ⟨hvalid.1.isDigit_ascii e he, hvalid.1.number_lt e he⟩, rfl⟩
          rw [hread] at hok
          cases hok
      | ok expect =>
          rw [h.parse_of_read htext hname hread, Except.ok.injEq]
          obtain ⟨hnumbers, rfl⟩ := (readExpect_eq_ok_iff h).mp hread
          have hvalid : s.IsValid :=
            ⟨h, hname, fun e he => (hnumbers e he).1, fun e he => (hnumbers e he).2⟩
          exact (and_iff_right hvalid).symm

/-- A digit of another script has the right form, but it is not read. -/
example : parse "a.c $m @ok \u0663 @ok_" = .error (.badExpectation "\u0663") := by decide

theorem HasForm.parse_ne_badCall (h : s.HasForm) (htext : s.text = Text.trim text) (call : Text) :
    parse text ≠ .error (.badCall call) := by
  cases hname : Path.checkRelative s.name with
  | error fault =>
      rw [h.parse_of_unsafe htext hname]
      nofun
  | ok checked =>
      cases hread : readExpect (s.expect.map WrittenExpect.digits) with
      | error fault =>
          rw [h.parse_of_unread htext hname hread]
          rintro ⟨⟩
          exact readExpect_ne_badCall _ call hread
      | ok expect =>
          rw [h.parse_of_read htext hname hread]
          nofun

end Spelling

theorem exists_hasForm_or_malformed (text : Text) :
    (∃ s : Spelling, s.HasForm ∧ s.text = Text.trim text) ∨ parse text = .error .malformed := by
  cases hparts : parts? (Text.trim text) with
  | none =>
      right
      rw [parse, hparts]
  | some parts =>
      obtain ⟨s, h, htext, -⟩ := Spelling.exists_of_parts? hparts
      exact .inl ⟨s, h, htext⟩

/-- Exactly the texts that can be taken apart into valid parts are accepted, and for what these parts
say. A text can be taken apart in one way only, and it is never refused for its call. -/
theorem parse_accepts_exactly_the_grammar (text : Text) :
    (∀ d, parse text = .ok d ↔
      ∃ s : Spelling, s.IsValid ∧ s.text = Text.trim text ∧ s.directive = d) ∧
    (∀ s s' : Spelling, s.HasForm → s'.HasForm →
      s.text = Text.trim text → s'.text = Text.trim text → s = s') ∧
    ∀ call, parse text ≠ .error (.badCall call) := by
  refine ⟨fun d => ⟨fun hparse => ?_, ?_⟩, fun s s' h h' htext htext' =>
    h.eq_of_text_eq h' (htext.trans htext'.symm), fun call hparse => ?_⟩
  · rcases exists_hasForm_or_malformed text with ⟨s, h, htext⟩ | hmalformed
    · obtain ⟨hvalid, hdirective⟩ := (h.parse_eq_ok_iff htext).mp hparse
      exact ⟨s, hvalid, htext, hdirective⟩
    · rw [hmalformed] at hparse
      cases hparse
  · rintro ⟨s, hvalid, htext, hdirective⟩
    exact (hvalid.toHasForm.parse_eq_ok_iff htext).mpr ⟨hvalid, hdirective⟩
  · rcases exists_hasForm_or_malformed text with ⟨s, h, htext⟩ | hmalformed
    · exact h.parse_ne_badCall htext call hparse
    · rw [hmalformed] at hparse
      cases hparse

theorem markers_are_no_second_reading :
    ∃ s : Spelling, s.IsValid ∧
      s.text = Text.trim " @file_$x  $m ( $, @ok 1 @ok_ ,\"(\" )\t@ok\n007 @ok_" ∧
      parse " @file_$x  $m ( $, @ok 1 @ok_ ,\"(\" )\t@ok\n007 @ok_" =
        .ok ⟨"@file_$x", ⟨"$m", ["$", "@ok 1 @ok_", "("]⟩, some 7⟩ ∧
      ∀ s' : Spelling, s'.HasForm →
        s'.text = Text.trim " @file_$x  $m ( $, @ok 1 @ok_ ,\"(\" )\t@ok\n007 @ok_" → s' = s := by
  have hgap : ∀ gap : Text, gap.isEmpty = false → gap.all Text.isBlank = true → IsGap gap :=
    fun gap hne hall => ⟨List.isEmpty_eq_false_iff.mp hne, List.all_eq_true.mp hall⟩
  have hlist : WrittenList.HasForm ⟨" ", " $, @ok 1 @ok_ ,\"(\" "⟩ :=
    ⟨List.all_eq_true.mp rfl, by decide⟩
  have hexpect : WrittenExpect.HasForm ⟨"\t", "\n", "007", " "⟩ :=
    ⟨hgap _ rfl rfl, hgap _ rfl rfl, List.cons_ne_nil _ _, List.all_eq_true.mp rfl, hgap _ rfl rfl⟩
  have hform : Spelling.HasForm ⟨"@file_$x", "  ",
      ⟨"$m", some ⟨" ", " $, @ok 1 @ok_ ,\"(\" "⟩⟩, some ⟨"\t", "\n", "007", " "⟩⟩ :=
    ⟨List.cons_ne_nil _ _, fun c hc => Bool.eq_false_iff.mpr (List.any_eq_false.mp rfl c hc),
      hgap _ rfl rfl, ⟨⟨"m", rfl, rfl⟩, by rintro _ ⟨⟩; exact hlist⟩, by rintro _ ⟨⟩; exact hexpect⟩
  have hvalid : Spelling.IsValid ⟨"@file_$x", "  ",
      ⟨"$m", some ⟨" ", " $, @ok 1 @ok_ ,\"(\" "⟩⟩, some ⟨"\t", "\n", "007", " "⟩⟩ := by
    refine ⟨hform, by decide, ?_, ?_⟩
    · rintro _ ⟨⟩
      exact List.all_eq_true.mp rfl
    · rintro _ ⟨⟩
      decide
  obtain ⟨haccepts, hunique, -⟩ :=
    parse_accepts_exactly_the_grammar " @file_$x  $m ( $, @ok 1 @ok_ ,\"(\" )\t@ok\n007 @ok_"
  exact ⟨_, hvalid, by decide, (haccepts _).mpr ⟨_, hvalid, by decide, by decide⟩,
    fun s' h' htext' => hunique _ _ h' hvalid.toHasForm htext' (by decide)⟩

end FileDirective

end TemplateSuite
