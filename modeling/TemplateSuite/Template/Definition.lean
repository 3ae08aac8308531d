import TemplateSuite.Template.Comment
import TemplateSuite.Template.Error

namespace TemplateSuite

namespace Definition

/-- A name, with or without the sigil, at the beginning of a text, and what follows it. -/
def nameAtStart? : Text → Option (Text × Text)
  | '$' :: rest => Call.nameAtStart? ('$' :: rest)
  | text =>
    match text.takeWhile isIdentifierChar with
    | [] => none
    | name => some (name, text.dropWhile isIdentifierChar)

/-- The name and the text of the parameter list, if there is one. -/
def heading? (argument : Text) : Option (Text × Option Text) :=
  match nameAtStart? argument with
  | none => none
  | some (name, after) =>
    match Reference.listAtStart? (Text.trimLeft after) with
    | some (list, []) => some (name, some list)
    | some _ => none
    | none => if Text.allBlank after then some (name, none) else none

/-- The parameters named in a list; blank pieces between commas name none. -/
def parameters (list : Text) : List Text :=
  ((list.splitOn ',').map Text.trim).filter (· ≠ [])

/-- The macro that a `def` section defines. -/
def ofSection (s : Section) : Except SectionFault Macro :=
  let argument := Text.trim s.argument
  match heading? argument with
  | none => .error (.badDefinition argument)
  | some (name, list) =>
    (Macro.make name (stripComments s.body) ((list.map parameters).getD [])).mapError .badMacro

end Definition

end TemplateSuite
