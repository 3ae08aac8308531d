import TemplateSuite.Generation.Directory
import TemplateSuite.Template.Definition

/-!
Processing of templates. A text is checked as a whole before anything is done with it; then its
top-level sections are handled in order. An included file is processed like any other template,
while the templates that lead to it stay open; a file that is open is not entered again.
-/

namespace TemplateSuite

namespace Processing

/-- Handle a `def` section. -/
def defineMacro (s : Section) : Processing Unit := do
  let m ← ofExcept (.invalidSection s.tag s.line) (Definition.ofSection s)
  note (.defined m.name m.arity s.line)
  let before := (← get).macros
  modify fun p => { p with macros := before.define m }
  if before.contains m.name then note (.redefined m.name)

def directoryOf (template : Text) : Text :=
  (Path.parent? template).getD ['.']

/-- The directories searched for an included file: those of the open templates, innermost first,
and then the include roots. -/
def searchRoots (setup : Setup) (opened : List Text) : List Text :=
  opened.map directoryOf ++ setup.includeRoots

/-- The file an include target stands for: the first regular file among its candidates. -/
def resolveInclude (setup : Setup) (opened : List Text) (files : FileSystem) (target : Text) :
    Except TemplateError Text :=
  let candidates :=
    if Path.isAbsolute target then [target]
    else (searchRoots setup opened).map (Path.join · target)
  match candidates.find? files.isFile with
  | some path => .ok path
  | none => .error (.includeNotFound target)

/-- The target of an `include` section: the argument, or else the body. -/
def includeTarget (s : Section) : Text :=
  if Text.trim s.argument = [] then Text.trim s.body else Text.trim s.argument

/-- Handle an `include` section; `enter` processes the file. -/
def includeTemplate (setup : Setup) (enter : Text → Processing Unit) (s : Section) :
    Processing Unit := do
  let target := includeTarget s
  if target = [] then throw (.invalidSection s.tag s.line .missingInclude)
  let p ← get
  let path ← ofExcept id (resolveInclude setup p.opened p.files target)
  note (.including path s.line)
  enter path

/-- Handle a section at top level in the way the table says. -/
def handleSection (setup : Setup) (enter : Text → Processing Unit) (s : Section) :
    Processing Unit := do
  match setup.table.get? s.tag with
  | none => note (.unregisteredSection s.tag s.line)
  | some handler =>
    note (.handlingSection s.tag s.line)
    match handler with
    | .definition => defineMacro s
    | .directory => generateDirectory setup.outputRoot s
    | .inclusion => includeTemplate setup enter s
    | .comment => pure ()

/-- Handle a top-level element; text outside sections is ignored. -/
def handleItem (setup : Setup) (enter : Text → Processing Unit) : Item → Processing Unit
  | .text .. => pure ()
  | .block s => handleSection setup enter s

/-- Check the nesting of a text and handle its sections. -/
def handleText (setup : Setup) (enter : Text → Processing Unit) (text : Text) :
    Processing Unit := do
  ofExcept .nesting (checkNesting text)
  let items ← ofExcept .nesting (scan text 1)
  items.forM (handleItem setup enter)

/-- Run an action while a template is open; its errors come out of that template. -/
def whileOpen (file : Text) (action : Processing Unit) : Processing Unit :=
  fun p =>
    let (result, after) := action
      { p with opened := file :: p.opened, events := p.events ++ [.enteringTemplate file] }
    (result.mapError (.inTemplate file ·),
      { after with
        opened := after.opened.tail, events := after.events ++ [.leavingTemplate file] })

/-- Process a template file; `enter` processes the files it includes. -/
def openTemplate (setup : Setup) (enter : Text → Processing Unit) (path : Text) :
    Processing Unit := do
  let file ← observe .resolveTemplate path (·.canonicalPath path)
  if (← get).opened.contains file then throw (.includeCycle file)
  let text ← observe .readTemplate file (·.readText file)
  whileOpen file (handleText setup enter text)

/-- A number of templates that cannot be open at once: they are distinct, and each has a path of at
most `FileSystem.maxPathBytes` bytes. -/
def openLimit : Nat :=
  Nat.pow 256 (FileSystem.maxPathBytes + 1)

/-- Process a template file when at most `room` templates may be opened inside each other. -/
def processFileWithin (setup : Setup) : (room : Nat) → Text → Processing Unit
  | 0, path => throw (.file .resolveTemplate path .tooManyLinks)
  | room + 1, path => openTemplate setup (processFileWithin setup room) path

def processFile (setup : Setup) (path : Text) : Processing Unit :=
  processFileWithin setup openLimit path

/-- Process the text of a template that is no file. -/
def processText (setup : Setup) (text : Text) : Processing Unit :=
  handleText setup (processFile setup) text

end Processing

end TemplateSuite
