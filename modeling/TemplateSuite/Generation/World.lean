import TemplateSuite.FileSystem.Change
import TemplateSuite.Generation.Event
import TemplateSuite.Generation.SectionTable
import TemplateSuite.Macro.Environment
import TemplateSuite.Template.Error

namespace TemplateSuite

/-- The file system and what has happened so far, oldest event first. -/
structure World where
  files : FileSystem
  events : List Event := []
  deriving Repr, Inhabited

/-- How far processing has come. -/
structure Progress extends World where
  macros : Environment := .empty
  /-- The canonical paths of the templates being processed, innermost first. -/
  opened : List Text := []
  /-- The files written and not yet taken, in the order of writing. -/
  generated : List GeneratedFile := []
  deriving Repr, Inhabited

/-- The files on the record; they are taken off it. -/
def Progress.takeGenerated (p : Progress) : List GeneratedFile × Progress :=
  (p.generated, { p with generated := [] })

/-- What stays fixed while templates are processed. -/
structure Setup where
  /-- The directory that `dir` sections are relative to. -/
  outputRoot : Text
  /-- Where included files are searched after the directories of the open templates. -/
  includeRoots : List Text := []
  table : SectionTable := .standard
  deriving DecidableEq, Repr, Inhabited

/-- An action that processes a part of a template. -/
abbrev Processing (α : Type) := ExceptT TemplateError (StateM Progress) α

namespace Processing

def note (event : Event) : Processing Unit :=
  modify fun p => { p with events := p.events ++ [event] }

/-- Fail with the error, if there is one. -/
def ofExcept (wrap : ε → TemplateError) (result : Except ε α) : Processing α :=
  match result with
  | .ok value => pure value
  | .error e => throw (wrap e)

/-- Look at the file system; the operation and the path are named if that fails. -/
def observe (operation : FileOperation) (path : Text)
    (view : FileSystem → Except FileError α) : Processing α := do
  ofExcept (.file operation path) (view (← get).files)

/-- Change the file system; the operation and the path are named if that fails. -/
def change (operation : FileOperation) (path : Text) (action : Change α) : Processing α :=
  fun p =>
    let (result, files) := action p.files
    (result.mapError (.file operation path),
      { p with files, events := p.events ++ [.changing operation path] })

/-- Add a file to the record of generated files. -/
def record (file : GeneratedFile) : Processing Unit :=
  modify fun p => { p with generated := p.generated ++ [file] }

end Processing

end TemplateSuite
