import TemplateSuite.CommandLine.Arguments
import TemplateSuite.Config.Read
import TemplateSuite.Config.Toolchain
import TemplateSuite.Document.Json.Writer
import TemplateSuite.Generation.Generator
import TemplateSuite.Glob.Search

namespace TemplateSuite

namespace CommandLine

inductive CommandError where
  | suite (error : SuiteError)
  | configNotLoaded (path : Text) (cause : SuiteError)
  | badPattern (pattern : Text) (error : Glob.PatternError)
  | badMacro (fault : MacroFault)
  deriving DecidableEq, Repr, Inhabited

namespace CommandError

def message : CommandError → Text
  | .suite error => error.message
  | .configNotLoaded path _ => "Failed to load " ++ path
  | .badPattern pattern error => "Can't expand '" ++ pattern ++ "': " ++ error.message
  | .badMacro fault => fault.message

end CommandError

/-- The world and what has been printed. -/
structure Console where
  world : World
  output : Text := []
  deriving Repr, Inhabited

/-- An action of a command. -/
abbrev Running (α : Type) := ExceptT CommandError (StateM Console) α

namespace Running

def print (line : Text) : Running Unit :=
  modify fun c => { c with output := c.output ++ line ++ ['\n'] }

def printSuccess (text : Text) : Running Unit :=
  print ("✓ " ++ text)

def printStep (text : Text) : Running Unit :=
  print ("→ " ++ text)

/-- Act on the world. -/
def make (wrap : SuiteError → CommandError) (action : Making α) : Running α :=
  fun c =>
    let (result, world) := action c.world
    (result.mapError wrap, { c with world })

end Running

open Running

/-- The templates that a pattern stands for: the paths that match, or the pattern itself if none
does. -/
def expandPattern (fs : FileSystem) (pattern : Text) : Except CommandError (List Text) := do
  match ← (Glob.paths fs pattern).mapError (.badPattern pattern) with
  | [] => return [pattern]
  | paths => return paths

/-- The templates that patterns stand for, in the order of the patterns. -/
def expandPatterns (patterns : List Text) : Running (List Text) := do
  let fs := (← get).world.files
  match patterns.mapM (expandPattern fs) with
  | .ok templates => return templates.flatten
  | .error e => throw e

def loadConfig (path : Text) : Running Config :=
  make (.configNotLoaded path) (Config.ofFile path)

/-- How many things there are, in parentheses after the one. -/
def count (n : Nat) (noun : Text) : Text :=
  Text.decimal n ++ ' ' :: noun ++ "(s)"

def reportValue (report : Report) : Value :=
  .record [
    ("output_dir", .string report.outputDirectory),
    ("templates", .ofTexts report.templates),
    ("files", .list (report.files.map fun file =>
      .record [
        ("path", .string file.path),
        ("expect", .ofOption (.ofNat ·.toNat) file.expect)]))]

/-- How a generated file is listed. -/
def describeFile (file : GeneratedFile) : Text :=
  match file.expect with
  | some code => file.path ++ " (expect " ++ Text.decimal code.toNat ++ ")"
  | none => file.path

/-- Print what a run made. -/
def printReport (report : Report) : Running Unit := do
  report.files.forM (printSuccess <| describeFile ·)
  if report.files = [] then print "! No files generated"
  else
    print []
    printSuccess ("Generated " ++ count report.files.length "file" ++ " in " ++
      report.outputDirectory)

/-- The generator that the options ask for. -/
def generatorOf (options : GenerateOptions) (config : Config) : Generator :=
  let g := Generator.ofConfig config
  let g := match options.output with
    | some directory => g.withOutputDirectory directory
    | none => g
  g.withIncludePaths options.includes

def runGenerate (searchPath : Toolchain.SearchPath) (options : GenerateOptions) (verbose : Bool) :
    Running Unit := do
  let config ← loadConfig options.config
  if options.checksToolchain then make .suite (config.verifyToolchain searchPath)
  let templates ← expandPatterns options.patterns
  if verbose && !options.json then
    printStep ("Generating from " ++ count templates.length "template")
  let report ← make .suite ((generatorOf options config).run templates)
  if options.json then print (Json.writePretty 0 (reportValue report))
  else printReport report

/-- Check templates without generating anything. -/
def runCheck (patterns : List Text) (verbose : Bool) : Running Unit := do
  let templates ← expandPatterns patterns
  if verbose then templates.forM fun path => printStep ("Checking " ++ path)
  make .suite (Generator.check templates)
  printSuccess (count templates.length "template" ++ " OK")

/-- The text filled up with spaces to the given length. -/
def padTo (width : Nat) (text : Text) : Text :=
  text ++ List.replicate (width - text.length) ' '

def macroValue (m : Macro) : Value :=
  .record [("name", .string m.name), ("value", .string m.body)]

/-- List the predefined macros of a configuration. -/
def runListMacros (config : Text) (json verbose : Bool) : Running Unit := do
  let config ← loadConfig config
  match config.predefinedMacros with
  | .error fault => throw (.badMacro fault)
  | .ok env =>
    make .suite (Making.note (.predefinedMacros env.size))
    if json then print (Json.writePretty 0 (.list (env.macros.map macroValue)))
    else
      let width := (env.macros.map (·.name.length)).foldl max 0
      env.macros.forM fun m => print (padTo width m.name ++ "  " ++ m.body)
      if verbose then
        print []
        printSuccess (count env.size "macro")

def run (searchPath : Toolchain.SearchPath) (invocation : Invocation) : Running Unit :=
  match invocation.command with
  | .generate options => runGenerate searchPath options invocation.verbose
  | .check patterns => runCheck patterns invocation.verbose
  | .listMacros config json => runListMacros config json invocation.verbose

/-- What the program leaves behind beside the changed world. -/
structure Outcome where
  code : Nat
  output : Text
  /-- The text of the error that ended the program. -/
  error : Option Text
  deriving DecidableEq, Repr, Inhabited

/-- The name and the version of the program. -/
def versionText : Text := "testgen 0.1.0\n"

/-- How the program is used. -/
def usageText : Text :=
  "Usage: testgen [-v] generate -c FILE [-o DIR] [-I DIR] [--no-toolchain-check] [--json]\n" ++
    "         PATTERN...\n" ++
    "       testgen [-v] check PATTERN...\n" ++
    "       testgen [-v] macros -c FILE [--json]\n"

/-- Run the program: read its arguments and run the command they ask for. -/
def execute (environment : Option Text) (searchPath : Toolchain.SearchPath) (args : List Text)
    (world : World) : Outcome × World :=
  match read environment args with
  | .error .version => (⟨0, versionText, none⟩, world)
  | .error .help => (⟨0, usageText, none⟩, world)
  | .error .usage => (⟨2, [], some usageText⟩, world)
  | .ok invocation =>
    match run searchPath invocation { world } with
    | (.ok (), console) => (⟨0, console.output, none⟩, console.world)
    | (.error e, console) =>
      (⟨1, console.output, some ("Error: " ++ e.message ++ "\n")⟩, console.world)

end CommandLine

end TemplateSuite
