import TemplateSuite.Macro.Expansion

namespace TemplateSuite

/-- A call: the name of the macro and the arguments. -/
structure Call where
  name : Text
  args : List Text
  deriving DecidableEq, Repr, Inhabited

namespace Call

/-- A sigiled name at the beginning of a text, and what follows it. -/
def nameAtStart? : Text → Option (Text × Text)
  | '$' :: rest =>
    match rest.takeWhile isIdentifierChar with
    | [] => none
    | name => some (sigil :: name, rest.dropWhile isIdentifierChar)
  | _ => none

/-- A text that is one call, with white space allowed before, after and between its parts. -/
def parse? (text : Text) : Option Call :=
  match nameAtStart? (Text.trimLeft text) with
  | none => none
  | some (name, after) =>
    match Reference.listAtStart? (Text.trimLeft after) with
    | some (list, trailing) =>
      if Text.allBlank trailing then some ⟨name, splitArguments list⟩ else none
    | none => if Text.allBlank after then some ⟨name, []⟩ else none

def expand (call : Call) (env : Environment) : Except ExpansionError Text :=
  match env.get? call.name with
  | some callee => callee.evaluate call.args env
  | none => .error (.undefinedMacro call.name)

end Call

end TemplateSuite
