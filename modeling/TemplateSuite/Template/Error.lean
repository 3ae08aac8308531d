import TemplateSuite.Template.Directive
import TemplateSuite.Template.Nesting
import TemplateSuite.FileSystem.Basic

namespace TemplateSuite

/-- What was done to the file system when it failed. -/
inductive FileOperation where
  | resolveTemplate
  | readTemplate
  | removeDirectory
  | removeFile
  | createDirectory
  | writeFile
  deriving DecidableEq, Repr, Inhabited

namespace FileOperation

def description : FileOperation → Text
  | .resolveTemplate => "resolve template"
  | .readTemplate => "read template"
  | .removeDirectory => "remove directory"
  | .removeFile => "remove file"
  | .createDirectory => "create directory"
  | .writeFile => "write file"

end FileOperation

/-- Why the argument of a section is refused. -/
inductive SectionFault where
  /-- The argument of a definition is not a name with an optional parameter list. -/
  | badDefinition (argument : Text)
  | badMacro (fault : MacroFault)
  | missingDirectory
  | unsafePath (fault : UnsafePath)
  | missingInclude
  deriving DecidableEq, Repr, Inhabited

namespace SectionFault

def message : SectionFault → Text
  | .badDefinition argument => "expected '$name' or '$name(params)', got '" ++ argument ++ "'"
  | .badMacro fault => fault.message
  | .missingDirectory => "missing directory name"
  | .unsafePath fault => fault.message
  | .missingInclude => "missing include path"

end SectionFault

/-- Why a template cannot be processed. -/
inductive TemplateError where
  | expansion (error : ExpansionError)
  | invalidMacro (fault : MacroFault)
  | nesting (error : NestingError)
  /-- No search root has the file that is to be included. -/
  | includeNotFound (path : Text)
  /-- The file that is to be included is open already. -/
  | includeCycle (path : Text)
  | invalidSection (tag : Text) (line : Nat) (fault : SectionFault)
  | invalidDirective (line : Nat) (text : Text) (fault : DirectiveFault)
  | file (operation : FileOperation) (path : Text) (error : FileError)
  /-- An error that left the template with this path. -/
  | inTemplate (path : Text) (error : TemplateError)
  deriving DecidableEq, Repr, Inhabited

namespace TemplateError

def message : TemplateError → Text
  | .expansion error => error.message
  | .invalidMacro fault => fault.message
  | .nesting error => error.message
  | .includeNotFound path => "Included file '" ++ path ++ "' is not found"
  | .includeCycle path => "'" ++ path ++ "' includes itself"
  | .invalidSection tag line fault =>
    "Invalid '" ++ tag ++ "' section at line " ++ Text.decimal line ++ ": " ++ fault.message
  | .invalidDirective line text fault =>
    "Invalid directive at line " ++ Text.decimal line ++ ": " ++ fault.message ++ " ('" ++ text ++
      "')"
  | .file operation path error =>
    "I/O error during " ++ operation.description ++ " on " ++ path ++ ": " ++ error.message
  | .inTemplate path error => path ++ ": " ++ message error

/-- The error itself, without the templates it came through. -/
def rootCause : TemplateError → TemplateError
  | .inTemplate _ error => rootCause error
  | error => error

/-- The templates the error came through, outermost first. -/
def templateChain : TemplateError → List Text
  | .inTemplate path error => path :: templateChain error
  | _ => []

/-- The number of errors below this one: one for each template, and the system's own error. -/
def causeCount : TemplateError → Nat
  | .inTemplate _ error => causeCount error + 1
  | .file .. => 1
  | _ => 0

end TemplateError

end TemplateSuite
