import TemplateSuite.Generation.Error
import TemplateSuite.Generation.World

namespace TemplateSuite

/-- An action that makes a part of a test suite. -/
abbrev Making (α : Type) := ExceptT SuiteError (StateM World) α

namespace Making

def note (event : Event) : Making Unit :=
  modify fun w => { w with events := w.events ++ [event] }

def ofExcept (wrap : ε → SuiteError) (result : Except ε α) : Making α :=
  match result with
  | .ok value => pure value
  | .error e => throw (wrap e)

def observe (wrap : FileError → SuiteError) (view : FileSystem → Except FileError α) :
    Making α := do
  ofExcept wrap (view (← get).files)

def change (wrap : FileError → SuiteError) (action : Change α) : Making α :=
  fun w =>
    let (result, files) := action w.files
    (result.mapError wrap, { w with files })

end Making

end TemplateSuite
