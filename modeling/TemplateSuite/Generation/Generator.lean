import TemplateSuite.Config.Predefined
import TemplateSuite.Generation.Making
import TemplateSuite.Generation.Template

namespace TemplateSuite

/-- A configuration with the directories it is used with. -/
structure Generator where
  config : Config
  outputDirectory : Text
  includePaths : List Text
  deriving DecidableEq, Repr, Inhabited

/-- What a run made. -/
structure Report where
  outputDirectory : Text
  templates : List Text
  /-- The written files in the order of writing. -/
  files : List GeneratedFile
  deriving DecidableEq, Repr, Inhabited

def templateExtension : Text := "tt"

def isTemplate (path : Text) : Bool :=
  Path.extension? path == some templateExtension

/-- Check that there are templates and that all of them are named like templates. -/
def checkTemplateNames (templates : List Text) : Except SuiteError Unit :=
  if templates = [] then .error .noTemplates
  else
    match templates.find? (!isTemplate ·) with
    | some path => .error (.notATemplate path)
    | none => .ok ()

namespace Generator

/-- The generator that writes where the configuration says. -/
def ofConfig (config : Config) : Generator :=
  ⟨config, config.testDirectory, config.includePaths⟩

/-- Write below another directory. -/
def withOutputDirectory (g : Generator) (directory : Text) : Generator :=
  { g with outputDirectory := directory }

/-- Search these directories before the ones known so far. -/
def withIncludePaths (g : Generator) (paths : List Text) : Generator :=
  { g with includePaths := paths ++ g.includePaths }

/-- What stays fixed during a run. -/
def setup (g : Generator) : Setup where
  outputRoot := g.outputDirectory
  includeRoots := g.includePaths

def processTemplates (setup : Setup) : List Text → Processing Unit
  | [] => pure ()
  | path :: rest => do
    Processing.note (.startingTemplate path)
    Processing.processFile setup path
    processTemplates setup rest

/-- Process templates from an environment of macros, and give the files they generate. -/
def generateFiles (g : Generator) (macros : Environment) (templates : List Text) :
    Making (List GeneratedFile) :=
  fun w =>
    let (result, after) := processTemplates g.setup templates { w with macros }
    ((result.mapError .template).map fun _ => after.generated, after.toWorld)

/-- Generate the test suite from the templates. -/
def run (g : Generator) (templates : List Text) : Making Report := do
  Making.ofExcept .configInvalid g.config.validate
  Making.ofExcept id (checkTemplateNames templates)
  Making.change .file (Change.makeDirectories g.outputDirectory)
  Making.note (.startingRun templates.length g.outputDirectory)
  let macros ← Making.ofExcept (.template <| .invalidMacro ·) g.config.predefinedMacros
  Making.note (.predefinedMacros macros.size)
  let files ← g.generateFiles macros templates
  Making.note (.finishedRun files.length)
  return ⟨g.outputDirectory, templates, files⟩

/-- Check the nesting of one template. -/
def checkTemplate (path : Text) : Making Unit := do
  let text ← Making.observe (.template <| .file .readTemplate path ·) (·.readText path)
  Making.ofExcept (.template <| .inTemplate path <| .nesting ·) (checkNesting text)
  Making.note (.checkedTemplate path)

/-- Check the names of the templates and their nesting, without generating anything. -/
def check (templates : List Text) : Making Unit := do
  Making.ofExcept id (checkTemplateNames templates)
  templates.forM checkTemplate

end Generator

end TemplateSuite
