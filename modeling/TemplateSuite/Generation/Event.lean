import TemplateSuite.Template.Error

namespace TemplateSuite

/-- A file that a directive wrote. -/
structure GeneratedFile where
  path : Text
  /-- What running the file is expected to give. -/
  expect : Option UInt32
  deriving DecidableEq, Repr, Inhabited

/-- How much an event is of interest. -/
inductive Level where
  | info
  | debug
  | trace
  deriving DecidableEq, Repr, Inhabited

namespace Level

def name : Level → Text
  | .info => "INFO"
  | .debug => "DEBUG"
  | .trace => "TRACE"

end Level

/-- Something that happened. -/
inductive Event where
  /-- A change of the file system is tried at a path. -/
  | changing (operation : FileOperation) (path : Text)
  | enteringTemplate (path : Text)
  | leavingTemplate (path : Text)
  | handlingSection (tag : Text) (line : Nat)
  | unregisteredSection (tag : Text) (line : Nat)
  | defined (name : Text) (arity line : Nat)
  | redefined (name : Text)
  | including (path : Text) (line : Nat)
  | createdDirectory (path : Text)
  | ignoredText (line : Nat)
  | ignoredSection (tag : Text) (line : Nat)
  /-- A file was written with this content. -/
  | generated (file : GeneratedFile) (content : Text)
  | predefinedMacros (count : Nat)
  | startingRun (templates : Nat) (outputDirectory : Text)
  | startingTemplate (path : Text)
  | finishedRun (files : Nat)
  | checkedTemplate (path : Text)
  | loadedConfig (path : Text)
  | foundTool (program path : Text)
  deriving DecidableEq, Repr, Inhabited

namespace Event

def level : Event → Level
  | .changing .. => .trace
  | .createdDirectory _ => .info
  | .generated .. => .info
  | .startingRun .. => .info
  | .startingTemplate _ => .info
  | .finishedRun _ => .info
  | _ => .debug

def message : Event → Text
  | .changing operation path => operation.description ++ " " ++ path
  | .enteringTemplate path => "entering template " ++ path
  | .leavingTemplate path => "leaving template " ++ path
  | .handlingSection tag line => "@" ++ tag ++ " section at line " ++ Text.decimal line
  | .unregisteredSection tag line =>
    "skipping unregistered @" ++ tag ++ " section at line " ++ Text.decimal line
  | .defined name arity line =>
    "defined macro " ++ name ++ " with " ++ Text.decimal arity ++ " parameter(s) at line " ++
      Text.decimal line
  | .redefined name => "macro " ++ name ++ " redefined"
  | .including path line => "including " ++ path ++ " from line " ++ Text.decimal line
  | .createdDirectory path => "created directory " ++ path
  | .ignoredText line =>
    "ignoring text at line " ++ Text.decimal line ++ " in directory section"
  | .ignoredSection tag line =>
    "skipping @" ++ tag ++ " section at line " ++ Text.decimal line ++ " in directory section"
  | .generated file _ => "generated " ++ file.path
  | .predefinedMacros count => Text.decimal count ++ " predefined macros"
  | .startingRun templates outputDirectory =>
    "generating " ++ Text.decimal templates ++ " template(s) into " ++ outputDirectory
  | .startingTemplate path => "processing " ++ path
  | .finishedRun files => "generated " ++ Text.decimal files ++ " file(s)"
  | .checkedTemplate path => path ++ " is well-formed"
  | .loadedConfig path => "loaded configuration from " ++ path
  | .foundTool program path => program ++ " resolved to " ++ path

/-- The event as a line of a log. -/
def logLine (event : Event) : Text :=
  event.level.name ++ " " ++ event.message

/-- The lines of a log of the given events. -/
def log (events : List Event) : List Text :=
  (events.filter (·.level ≠ .trace)).map logLine

end Event

end TemplateSuite
