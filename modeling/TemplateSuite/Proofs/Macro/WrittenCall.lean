import TemplateSuite.Proofs.Macro.Piece

namespace TemplateSuite

/-- An argument list, and the white space before its parenthesis. -/
structure WrittenList where
  before : Text
  list : Text

structure WrittenCall where
  callee : Text
  list : Option WrittenList

theorem eq_of_optional_text_eq {α : Type} {write : α → Text} {first second : Option α}
    (hne : ∀ part ∈ first, write part ≠ []) (hne' : ∀ part ∈ second, write part ≠ [])
    (hinj : ∀ part ∈ first, ∀ part' ∈ second, write part = write part' → part = part')
    (h : (first.map write).getD [] = (second.map write).getD []) : first = second := by
  cases first with
  | none =>
      cases second with
      | none => rfl
      | some part' => exact absurd h.symm (hne' part' rfl)
  | some part =>
      cases second with
      | none => exact absurd h (hne part rfl)
      | some part' => exact congrArg some (hinj part rfl part' rfl h)

namespace WrittenList

def text (l : WrittenList) : Text :=
  l.before ++ '(' :: (l.list ++ [')'])

def optionalText (list? : Option WrittenList) : Text :=
  (list?.map text).getD []

structure HasForm (l : WrittenList) : Prop where
  before_isBlank : ∀ c ∈ l.before, Text.isBlank c
  no_parenthesis : ')' ∉ l.list

variable {l l' : WrittenList} {list? : Option WrittenList} {text after list : Text}

theorem text_ne_nil (l : WrittenList) : l.text ≠ [] :=
  List.append_ne_nil_of_right_ne_nil _ (List.cons_ne_nil _ _)

theorem HasForm.takeWhile_isBlank (h : l.HasForm) (after : Text) :
    (l.text ++ after).takeWhile Text.isBlank = l.before := by
  rw [WrittenList.text, List.append_assoc]
  exact Text.takeWhile_run h.before_isBlank (by rintro c ⟨⟩; rfl)

theorem listAtStart?_trimLeft_eq_some_iff :
    Reference.listAtStart? (Text.trimLeft text) = some (list, after) ↔
      ∃ l : WrittenList, l.HasForm ∧ l.list = list ∧ l.text ++ after = text := by
  constructor
  · intro h
    obtain ⟨hparenthesis, hlist⟩ := Piece.eq_append_of_listAtStart? h
    refine ⟨⟨text.takeWhile Text.isBlank, list⟩, ⟨fun c hc => List.mem_takeWhile_imp hc, hlist⟩, rfl,
      ?_⟩
    calc text.takeWhile Text.isBlank ++ '(' :: (list ++ [')']) ++ after
      _ = text.takeWhile Text.isBlank ++ Text.trimLeft text := by simp [hparenthesis]
      _ = text := List.takeWhile_append_dropWhile
  · rintro ⟨l, h, rfl, rfl⟩
    have hleft : Text.trimLeft (l.text ++ after) = '(' :: (l.list ++ ')' :: after) := by
      rw [WrittenList.text, List.append_assoc, List.cons_append, List.append_assoc]
      exact Text.dropWhile_run h.before_isBlank (by rintro c ⟨⟩; rfl)
    rw [hleft, Reference.listAtStart?, Text.splitAt?_append h.no_parenthesis]

theorem HasForm.listAtStart?_text (h : l.HasForm) :
    Reference.listAtStart? (Text.trimLeft l.text) = some (l.list, []) :=
  listAtStart?_trimLeft_eq_some_iff.mpr ⟨l, h, rfl, List.append_nil _⟩

theorem not_identifierChar_optionalText (h : ∀ l ∈ list?, l.HasForm)
    (hafter : ∀ c ∈ after.head?, isIdentifierChar c = false) :
    ∀ c ∈ (optionalText list? ++ after).head?, isIdentifierChar c = false := by
  intro c hc
  cases list? with
  | none => exact hafter c hc
  | some l =>
      have hblank := (h l rfl).before_isBlank
      rw [optionalText, Option.map_some, Option.getD_some, WrittenList.text] at hc
      cases hbefore : l.before with
      | nil =>
          rw [hbefore] at hc
          cases hc
          rfl
      | cons first rest =>
          rw [hbefore] at hc hblank
          cases hc
          exact isIdentifierChar_of_isBlank (hblank c List.mem_cons_self)

theorem HasForm.eq_of_text_eq (h : l.HasForm) (h' : l'.HasForm) (htext : l.text = l'.text) :
    l = l' := by
  obtain ⟨hbefore, hrest⟩ := Text.append_inj_of_run h.before_isBlank h'.before_isBlank
    (by rintro c ⟨⟩; rfl) (by rintro c ⟨⟩; rfl) htext
  have hlist : l.list = l'.list := List.append_cancel_right (List.cons.inj hrest).2
  cases l
  cases l'
  cases hbefore
  cases hlist
  rfl

end WrittenList

namespace WrittenCall

def text (c : WrittenCall) : Text :=
  c.callee ++ WrittenList.optionalText c.list

/-- What the call says. -/
def call (c : WrittenCall) : Call :=
  ⟨c.callee, (c.list.map fun l => splitArguments l.list).getD []⟩

structure HasForm (c : WrittenCall) : Prop where
  callee : IsMacroName c.callee
  list : ∀ l ∈ c.list, l.HasForm

variable {c c' : WrittenCall} {after : Text}

theorem HasForm.isBlank_head? (h : c.HasForm) (after : Text) :
    ∀ d ∈ (c.text ++ after).head?, Text.isBlank d = false := by
  obtain ⟨identifier, hcallee, -⟩ := h.callee
  rw [text, hcallee]
  rintro d ⟨⟩
  rfl

theorem HasForm.nameAtStart?_append (h : c.HasForm)
    (hafter : ∀ d ∈ after.head?, isIdentifierChar d = false) :
    Call.nameAtStart? (c.text ++ after) =
      some (c.callee, WrittenList.optionalText c.list ++ after) := by
  rw [text, List.append_assoc]
  exact h.callee.nameAtStart?_append (WrittenList.not_identifierChar_optionalText h.list hafter)

theorem HasForm.nameAtStart?_text (h : c.HasForm) :
    Call.nameAtStart? c.text = some (c.callee, WrittenList.optionalText c.list) := by
  have hname : Call.nameAtStart? (c.text ++ []) =
      some (c.callee, WrittenList.optionalText c.list ++ []) := h.nameAtStart?_append nofun
  rwa [List.append_nil, List.append_nil] at hname

/-- By itself, the text of the call is read as the call. -/
theorem HasForm.parse?_text (h : c.HasForm) : Call.parse? c.text = some c.call := by
  have hhead : ∀ d ∈ (c.text ++ []).head?, Text.isBlank d = false := h.isBlank_head? []
  rw [List.append_nil] at hhead
  rw [Call.parse?, Text.trimLeft_of_head? hhead, h.nameAtStart?_text]
  unfold call WrittenList.optionalText
  cases hlist : c.list with
  | none => rfl
  | some l =>
      simp only [Option.map_some, Option.getD_some, (h.list l hlist).listAtStart?_text]
      rfl

theorem HasForm.eq_of_text_eq (h : c.HasForm) (h' : c'.HasForm) (htext : c.text = c'.text) :
    c = c' := by
  have hname : some (c.callee, WrittenList.optionalText c.list) =
      some (c'.callee, WrittenList.optionalText c'.list) := by
    rw [← h.nameAtStart?_text, ← h'.nameAtStart?_text, htext]
  simp only [Option.some.injEq, Prod.mk.injEq] at hname
  obtain ⟨hcallee, hlistText⟩ := hname
  have hlist : c.list = c'.list :=
    eq_of_optional_text_eq (fun l _ => l.text_ne_nil) (fun l _ => l.text_ne_nil)
      (fun l hl l' hl' => (h.list l hl).eq_of_text_eq (h'.list l' hl')) hlistText
  cases c
  cases c'
  cases hcallee
  cases hlist
  rfl

end WrittenCall

end TemplateSuite
