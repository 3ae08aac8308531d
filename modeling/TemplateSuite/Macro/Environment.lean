import TemplateSuite.Macro.Basic

namespace TemplateSuite

/-- The macros that can be called, in increasing order of their names. -/
structure Environment where
  macros : List Macro
  deriving DecidableEq, Repr, Inhabited

namespace Environment

/-- Put a macro into a list ordered by name, in place of the one of the same name. -/
def insert (m : Macro) : List Macro → List Macro
  | [] => [m]
  | other :: rest =>
    if m.name = other.name then m :: rest
    else if m.name < other.name then m :: other :: rest
    else other :: insert m rest

def empty : Environment := ⟨[]⟩

/-- The macro whose full name is given. -/
def find? (env : Environment) (name : Text) : Option Macro :=
  env.macros.find? (·.name = name)

/-- The macro of the given name; the sigil may be left out. -/
def get? (env : Environment) (name : Text) : Option Macro :=
  env.find? (withSigil name)

/-- There is a macro of the given name. -/
def contains (env : Environment) (name : Text) : Bool :=
  (env.get? name).isSome

/-- Add a macro; it replaces the one of the same name. -/
def define (env : Environment) (m : Macro) : Environment :=
  ⟨insert m env.macros⟩

def extend (env : Environment) (macros : List Macro) : Environment :=
  macros.foldl define env

def size (env : Environment) : Nat :=
  env.macros.length

end Environment

end TemplateSuite
