import TemplateSuite.Config.Decode
import TemplateSuite.Template.Error

namespace TemplateSuite

/-- Why a test suite cannot be made. -/
inductive SuiteError where
  /-- The configuration file cannot be read. -/
  | configUnreadable (path : Text) (error : FileError)
  /-- The text is no configuration in the given format. -/
  | configMalformed (format : DocumentFormat) (error : DecodeError)
  | configInvalid (fault : ConfigFault)
  | notATemplate (path : Text)
  | noTemplates
  | toolNotFound (tool : Text)
  | template (error : TemplateError)
  | file (error : FileError)
  deriving DecidableEq, Repr, Inhabited

namespace DocumentFormat

def name : DocumentFormat → Text
  | .json => "JSON"
  | .toml => "TOML"

end DocumentFormat

namespace DecodeError

/-- What is said of the error beside the format: only a missing field is named. -/
def detail : DecodeError → Text
  | .missingField name => ": missing field `" ++ name ++ "`"
  | .unacceptable => []

end DecodeError

namespace SuiteError

def message : SuiteError → Text
  | .configUnreadable path error => "CONFIG_PARSE_ERROR: " ++ path ++ ": " ++ error.message
  | .configMalformed format error =>
    "CONFIG_PARSE_ERROR: " ++ format.name ++ " error" ++ error.detail
  | .configInvalid fault => "CONFIG_INVALID_VALUE: " ++ fault.field ++ ": " ++ fault.reason
  | .notATemplate path => "NOT_A_TEMPLATE: '" ++ path ++ "' is not a template file (*.tt)"
  | .noTemplates => "NO_TEMPLATES: no template files given"
  | .toolNotFound tool => "TOOL_NOT_FOUND: '" ++ tool ++ "' is not found on PATH"
  | .template error => "TEMPLATE_ERROR: " ++ error.message
  | .file error => "IO_ERROR: " ++ error.message

end SuiteError

end TemplateSuite
