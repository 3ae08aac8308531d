import TemplateSuite.Proofs.Macro.Locality
import TemplateSuite.Proofs.Macro.Name

/-!
Pieces of a text. Read from left to right, a text consists of its references and of the characters
that belong to none; nothing of it is lost. What is shown in the place of the references can be
chosen for each of them.
-/

namespace TemplateSuite

/-- A part of a text: a reference, or a character that belongs to none. -/
inductive Piece where
  | char (c : Char)
  | reference (r : Reference)
  deriving DecidableEq, Repr, Inhabited

/-- The name is one of a macro, and no parenthesis ends the argument list before its end. -/
structure Reference.IsRead (r : Reference) : Prop where
  isMacroName : IsMacroName r.name
  parenthesis_not_mem : ∀ list ∈ r.list, ')' ∉ list

namespace Piece

def reference? : Piece → Option Reference
  | char _ => none
  | reference r => some r

def ofText (text : Text) : List Piece :=
  match text with
  | [] => []
  | c :: rest =>
    if c = sigil then
      match rest.takeWhile isIdentifierChar with
      | [] => char c :: ofText rest
      | name =>
        match _h : Reference.listAtStart? (rest.dropWhile isIdentifierChar) with
        | none => reference ⟨sigil :: name, none⟩ :: ofText (rest.dropWhile isIdentifierChar)
        | some (list, after) => reference ⟨sigil :: name, some list⟩ :: ofText after
    else char c :: ofText rest
termination_by text.length
decreasing_by
  · simp
  · have := (List.dropWhile_suffix isIdentifierChar (l := rest)).length_le
    simp only [List.length_cons]
    omega
  · have := (List.dropWhile_suffix isIdentifierChar (l := rest)).length_le
    have := Reference.length_lt_of_listAtStart? (by assumption)
    simp only [List.length_cons]
    omega
  · simp

/-- The text of the pieces in one pass: every reference gives what is shown for it, or stands as it
is if nothing is. -/
def render (shown : Reference → Option Text) : List Piece → Text
  | [] => []
  | char c :: rest => c :: render shown rest
  | reference r :: rest => (shown r).getD r.token ++ render shown rest

variable {text list after : Text} {r : Reference} {c : Char} {pieces : List Piece}

theorem eq_append_of_listAtStart? (h : Reference.listAtStart? text = some (list, after)) :
    text = '(' :: (list ++ ')' :: after) ∧ ')' ∉ list := by
  unfold Reference.listAtStart? at h
  split at h
  · obtain ⟨hrest, hlist⟩ := Text.eq_append_of_splitAt? h
    exact ⟨congrArg ('(' :: ·) hrest, hlist⟩
  · cases h

/-- As they stand, the pieces make up the text. -/
theorem render_ofText (text : Text) : render (fun _ => none) (ofText text) = text := by
  fun_induction ofText text with
  | case1 => rfl
  | case2 rest hname ih => rw [render, ih]
  | case3 rest hlist hname ih =>
      rw [render, ih]
      exact congrArg (sigil :: ·) List.takeWhile_append_dropWhile
  | case4 rest list after hlist hname ih =>
      rw [render, ih]
      have hrest := List.takeWhile_append_dropWhile (p := isIdentifierChar) (l := rest)
      rw [(eq_append_of_listAtStart? hlist).1] at hrest
      simpa [Reference.token] using hrest
  | case5 c rest hc ih => rw [render, ih]

theorem references_ofText (text : Text) :
    (ofText text).filterMap reference? = Reference.all text := by
  fun_induction Reference.all text with
  | case1 => rw [ofText]; rfl
  | case2 rest hname ih =>
      unfold ofText
      rw [if_pos rfl]
      split
      · exact ih
      · contradiction
  | case3 rest hlist hname ih =>
      unfold ofText
      rw [if_pos rfl]
      split
      · contradiction
      · split
        · exact congrArg (_ :: ·) ih
        · rename_i hfound
          rw [hlist] at hfound
          cases hfound
  | case4 rest list after hlist hname ih =>
      unfold ofText
      rw [if_pos rfl]
      split
      · contradiction
      · split
        · rename_i hfound
          rw [hlist] at hfound
          cases hfound
        · rename_i hfound
          rw [hlist] at hfound
          cases hfound
          exact congrArg (_ :: ·) ih
  | case5 c rest hc ih =>
      rw [ofText, if_neg hc]
      exact ih

theorem mem_all_iff {text : Text} {r : Reference} :
    r ∈ Reference.all text ↔ reference r ∈ ofText text := by
  rw [← references_ofText, List.mem_filterMap]
  constructor
  · rintro ⟨_ | r', hmem, h⟩
    · cases h
    · cases h
      exact hmem
  · exact fun hmem => ⟨reference r, hmem, rfl⟩

theorem isRead_of_mem {text : Text} {r : Reference} (h : reference r ∈ ofText text) : r.IsRead := by
  fun_induction ofText text with
  | case1 => cases h
  | case2 rest hname ih => exact ih (by simpa using h)
  | case3 rest hlist hname ih =>
      rcases List.mem_cons.mp h with heq | hmem
      · cases heq
        exact ⟨⟨_, rfl, isIdentifier_takeWhile hname⟩, nofun⟩
      · exact ih hmem
  | case4 rest list after hlist hname ih =>
      rcases List.mem_cons.mp h with heq | hmem
      · cases heq
        refine ⟨⟨_, rfl, isIdentifier_takeWhile hname⟩, ?_⟩
        rintro _ ⟨⟩
        exact (eq_append_of_listAtStart? hlist).2
      · exact ih hmem
  | case5 c rest hc ih => exact ih (by simpa using h)

theorem not_identifierChar_of_suffix {text : Text} {r : Reference} {c : Char} {after : List Piece}
    (h : reference r :: char c :: after <:+ ofText text) (hr : r.list = none) :
    isIdentifierChar c = false := by
  fun_induction ofText text with
  | case1 => simp at h
  | case2 rest hname ih =>
      rcases List.suffix_cons_iff.mp h with heq | hsuffix
      · cases heq
      · exact ih hsuffix
  | case3 rest hlist hname ih =>
      rcases List.suffix_cons_iff.mp h with heq | hsuffix
      · obtain ⟨-, hpieces⟩ := List.cons.inj heq
        have htext := render_ofText (rest.dropWhile isIdentifierChar)
        rw [← hpieces, render] at htext
        have hnot := List.head?_dropWhile_not isIdentifierChar rest
        rw [← htext] at hnot
        simpa using hnot
      · exact ih hsuffix
  | case4 rest list after hlist hname ih =>
      rcases List.suffix_cons_iff.mp h with heq | hsuffix
      · obtain ⟨hpiece, -⟩ := List.cons.inj heq
        cases hpiece
        cases hr
      · exact ih hsuffix
  | case5 d rest hd ih =>
      rcases List.suffix_cons_iff.mp h with heq | hsuffix
      · cases heq
      · exact ih hsuffix

end Piece

end TemplateSuite
