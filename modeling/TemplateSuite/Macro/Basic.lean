import TemplateSuite.Text.Blank

namespace TemplateSuite

/-- The character that begins every macro name. -/
def sigil : Char := '$'

/-- The name with the sigil in front, put there unless it is there already. -/
def withSigil (name : Text) : Text :=
  if name.head? = some sigil then name else sigil :: name

/-- A character that can stand in a macro name after the sigil. -/
def isIdentifierChar (c : Char) : Bool :=
  c.isAlphanum || c == '_'

/-- A non-empty run of identifier characters. -/
def isIdentifier (name : Text) : Bool :=
  !name.isEmpty && name.all isIdentifierChar

/-- Why a macro cannot be made. -/
inductive MacroFault where
  /-- The name has nothing but white space. -/
  | emptyName
  /-- The name or a parameter, shown with its sigil, is no identifier. -/
  | badName (name : Text)
  /-- An integer type of this width has no limits to make macros of. -/
  | badWidth (typeName : Text) (bits : Nat)
  deriving DecidableEq, Repr, Inhabited

/-- The widest integer type that has limit macros. -/
def maxIntegerBits : Nat := 64

namespace MacroFault

def reason : MacroFault → Text
  | .emptyName => "macro name must not be empty"
  | .badName name => "'" ++ name ++ "' is not a valid macro name"
  | .badWidth typeName bits =>
    "'" ++ typeName ++ "' must be between 1 and " ++ Text.decimal maxIntegerBits ++
      " bits wide (got " ++ Text.decimal bits ++ ")"

def message (fault : MacroFault) : Text :=
  "Invalid macro: " ++ fault.reason

end MacroFault

/-- A named text with parameters. -/
structure Macro where
  name : Text
  body : Text
  params : List Text
  deriving DecidableEq, Repr, Inhabited

namespace Macro

/-- The name as it is kept: trimmed, with the sigil, and an identifier after it. -/
def checkName (name : Text) : Except MacroFault Text :=
  let full := withSigil (Text.trim name)
  if isIdentifier full.tail then .ok full else .error (.badName full)

/-- The macro with this name, body and parameters, if all its names are valid. -/
def make (name body : Text) (params : List Text) : Except MacroFault Macro :=
  if Text.trim name = [] then .error .emptyName
  else do
    let name ← checkName name
    let params ← params.mapM checkName
    return ⟨name, body, params⟩

/-- The macro without parameters with this name and body. -/
def constant (name body : Text) : Except MacroFault Macro :=
  make name body []

/-- The number of arguments a call must give. -/
def arity (m : Macro) : Nat :=
  m.params.length

end Macro

end TemplateSuite
