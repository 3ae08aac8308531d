import TemplateSuite.Macro.Basic
import TemplateSuite.Macro.Argument

namespace TemplateSuite

/-- A reference: the name with its sigil and the text between the parentheses, if there are any. -/
structure Reference where
  name : Text
  list : Option Text
  deriving DecidableEq, Repr, Inhabited

namespace Reference

/-- The text of the reference as it stands in a body. -/
def token (r : Reference) : Text :=
  match r.list with
  | none => r.name
  | some list => r.name ++ '(' :: list ++ [')']

/-- The arguments the reference passes. -/
def arguments (r : Reference) : List Text :=
  match r.list with
  | none => []
  | some list => splitArguments list

/-- The argument list that stands at the beginning of a text, and what follows it. -/
def listAtStart? : Text → Option (Text × Text)
  | '(' :: rest => Text.splitAt? ')' rest
  | _ => none

theorem length_lt_of_listAtStart? {text list after : Text}
    (h : listAtStart? text = some (list, after)) : after.length < text.length := by
  unfold listAtStart? at h
  split at h
  · have := Text.length_lt_of_splitAt? h
    simp only [List.length_cons]
    omega
  · simp at h

/-- The references of a text from left to right. They do not overlap. -/
def all (text : Text) : List Reference :=
  match text with
  | [] => []
  | c :: rest =>
    if c = sigil then
      match rest.takeWhile isIdentifierChar with
      | [] => all rest
      | name =>
        match _h : listAtStart? (rest.dropWhile isIdentifierChar) with
        | none => ⟨sigil :: name, none⟩ :: all (rest.dropWhile isIdentifierChar)
        -- what stands in an argument list is not looked at
        | some (list, after) => ⟨sigil :: name, some list⟩ :: all after
    else all rest
termination_by text.length
decreasing_by
  · simp
  · have := (List.dropWhile_suffix isIdentifierChar (l := rest)).length_le
    simp only [List.length_cons]
    omega
  · have := (List.dropWhile_suffix isIdentifierChar (l := rest)).length_le
    have := length_lt_of_listAtStart? (by assumption)
    simp only [List.length_cons]
    omega
  · simp

end Reference

end TemplateSuite
