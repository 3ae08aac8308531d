import TemplateSuite.Config.Basic
import TemplateSuite.Document.Value

namespace TemplateSuite

def Sizes.encode (s : Sizes) : Value :=
  .record [
    ("char", .ofNat s.char.toNat),
    ("short", .ofNat s.short.toNat),
    ("int", .ofNat s.int.toNat),
    ("long", .ofNat s.long.toNat),
    ("long_long", .ofOption (.ofNat ·.toNat) s.longLong),
    ("pointer", .ofOption (.ofNat ·.toNat) s.pointer)]

def Config.encode (config : Config) : Value :=
  .record [
    ("compiler", .string config.compiler),
    ("simulator", .ofOption .string config.simulator),
    ("c_flags", .ofTexts config.compilerFlags),
    ("ld_flags", .ofTexts config.linkerFlags),
    ("options", .ofTexts config.options),
    ("testdir", .string config.testDirectory),
    ("compile_only", .bool config.compileOnly),
    ("size", config.sizes.encode),
    ("timeout", .ofNat config.timeout.toNat),
    ("parallels", .ofNat config.parallels.toNat),
    ("color", .bool config.color),
    ("lang", .string config.language),
    ("expect", .string config.expect),
    ("complement", .ofNat config.complement.toNat),
    ("output_option", .string config.outputOption),
    ("option_separator", .string config.optionSeparator),
    ("has_printf", .bool config.hasPrintf),
    ("include_paths", .ofTexts config.includePaths)]

end TemplateSuite
