import TemplateSuite.Document.Toml.Reader
import TemplateSuite.Generation.Making
import TemplateSuite.Path.Basic

namespace TemplateSuite

namespace Config

/-- The value of a JSON text as a configuration. -/
def decodeJson (text : Text) : Decode.Result Config := do
  let (value, rest) := Json.read text
  let config ← decode .json value
  -- what follows the value counts only if the value is a configuration
  if (Json.skipSpace rest).isEmpty then return config else throw .unacceptable

/-- The document of a TOML text as a configuration. -/
def decodeToml (text : Text) : Decode.Result Config :=
  match Toml.parse? text with
  | some value => decode .toml value
  | none => .error .unacceptable

/-- A text in the given format as a configuration, without checking its values. -/
def decodeText : DocumentFormat → Text → Decode.Result Config
  | .json, text => decodeJson text
  | .toml, text => decodeToml text

/-- The valid configuration that a text in the given format gives. -/
def ofText (format : DocumentFormat) (text : Text) : Except SuiteError Config := do
  let config ← (decodeText format text).mapError (.configMalformed format)
  config.validate.mapError .configInvalid
  return config

/-- The format of a configuration file: TOML if its extension says so in any case of letters. -/
def formatOf (path : Text) : DocumentFormat :=
  if (Path.extension? path).any (Text.lower · == ("toml" : Text)) then .toml else .json

/-- Read a valid configuration from a file. -/
def ofFile (path : Text) : Making Config := do
  let text ← Making.observe (.configUnreadable path) (·.readText path)
  let config ← Making.ofExcept id (ofText (formatOf path) text)
  Making.note (.loadedConfig path)
  return config

end Config

end TemplateSuite
