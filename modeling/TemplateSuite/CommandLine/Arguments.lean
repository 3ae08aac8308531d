import TemplateSuite.Path.Basic

namespace TemplateSuite

namespace CommandLine

structure GenerateOptions where
  config : Text
  output : Option Text
  includes : List Text
  checksToolchain : Bool
  json : Bool
  patterns : List Text
  deriving DecidableEq, Repr, Inhabited

inductive Command where
  /-- Generate a test suite. -/
  | generate (options : GenerateOptions)
  /-- Check templates. -/
  | check (patterns : List Text)
  /-- List the predefined macros. -/
  | listMacros (config : Text) (json : Bool)
  deriving DecidableEq, Repr, Inhabited

/-- What the arguments ask for. -/
structure Invocation where
  command : Command
  verbose : Bool
  deriving DecidableEq, Repr, Inhabited

/-- Why no command is run. -/
inductive Stop where
  /-- The version is asked for. -/
  | version
  /-- Help is asked for. -/
  | help
  /-- The arguments are not understood. -/
  | usage
  deriving DecidableEq, Repr, Inhabited

/-- An option or a flag. -/
inductive Key where
  | config
  | output
  | includePath
  | noToolchainCheck
  | json
  | verbose
  | help
  | version
  deriving DecidableEq, Repr, Inhabited

namespace Key

def takesValue : Key → Bool
  | .config => true
  | .output => true
  | .includePath => true
  | _ => false

def isRepeatable : Key → Bool
  | .includePath => true
  | _ => false

/-- The long name of the option, without dashes. -/
def longName : Key → Text
  | .config => "config"
  | .output => "output"
  | .includePath => "include"
  | .noToolchainCheck => "no-toolchain-check"
  | .json => "json"
  | .verbose => "verbose"
  | .help => "help"
  | .version => "version"

def letter? : Key → Option Char
  | .config => some 'c'
  | .output => some 'o'
  | .includePath => some 'I'
  | .verbose => some 'v'
  | .help => some 'h'
  | .version => some 'V'
  | _ => none

end Key

/-- The options and values given, in order. -/
structure Given where
  /-- The options with their values; a flag has an empty value. -/
  options : List (Key × Text) := []
  /-- The arguments that are no options. -/
  positional : List Text := []
  deriving DecidableEq, Repr, Inhabited

namespace Given

def has (given : Given) (key : Key) : Bool :=
  given.options.any (·.1 = key)

/-- The first value of an option. -/
def value? (given : Given) (key : Key) : Option Text :=
  given.options.lookup key

def values (given : Given) (key : Key) : List Text :=
  (given.options.filter (·.1 = key)).map Prod.snd

/-- Take in an option. Values are never empty, and most options are given once at most. -/
def addOption (given : Given) (key : Key) (value : Text) : Except Stop Given :=
  -- asking for help or the version ends the reading
  if key = .help then .error .help
  else if key = .version then .error .version
  else if key.takesValue && value.isEmpty then .error .usage
  else if given.has key && !key.isRepeatable then .error .usage
  else .ok { given with options := given.options ++ [(key, value)] }

/-- Take in an argument that is no option. -/
def addPositional (given : Given) (arg : Text) : Given :=
  { given with positional := given.positional ++ [arg] }

end Given

/-- The argument can be the value of an option: it does not begin with a dash, unless it is one. -/
def isPlain (arg : Text) : Bool :=
  arg.head? != some '-' || arg == ['-']

/-- What one argument amounts to: options with their values; the last may still need its value. -/
structure Taken where
  given : Given
  /-- The option whose value is the next argument. -/
  pending : Option Key
  deriving DecidableEq, Repr, Inhabited

/-- What a command understands. -/
structure Signature where
  keys : List Key
  /-- The command works on patterns, which are the arguments that are no options. -/
  takesPatterns : Bool
  deriving DecidableEq, Repr, Inhabited

/-- Take in the letters after a dash. A letter of an option with a value takes the rest. -/
def addLetters (keys : List Key) (given : Given) : Text → Except Stop Taken
  | [] => .ok ⟨given, none⟩
  | c :: rest =>
    match keys.find? (·.letter? = some c) with
    | none => .error .usage
    | some key =>
      if key.takesValue then
        match rest with
        | [] => .ok ⟨given, some key⟩
        | '=' :: value => return ⟨← given.addOption key value, none⟩
        | value => return ⟨← given.addOption key value, none⟩
      else do addLetters keys (← given.addOption key []) rest

/-- Take in what follows two dashes: a name, with a value after an equals sign. -/
def addLong (keys : List Key) (given : Given) (text : Text) : Except Stop Taken :=
  let name := text.takeWhile (· ≠ '=')
  let value := (text.dropWhile (· ≠ '=')).tail?
  match keys.find? (·.longName = name), value with
  | none, _ => .error .usage
  | some key, some value =>
    if key.takesValue then return ⟨← given.addOption key value, none⟩ else .error .usage
  | some key, none =>
    if key.takesValue then .ok ⟨given, some key⟩ else return ⟨← given.addOption key [], none⟩

/-- Take in arguments that are no options. A command without patterns refuses the first of them. -/
def Signature.addPatterns (signature : Signature) (given : Given) (args : List Text) :
    Except Stop Given :=
  if signature.takesPatterns || args.isEmpty then .ok (args.foldl Given.addPositional given)
  else .error .usage

/-- Take in the arguments of a command; the first complaint or request for help counts. -/
def Signature.read (signature : Signature) (given : Given) :
    Option Key → List Text → Except Stop Given
  | none, [] => .ok given
  | some _, [] => .error .usage
  | some key, arg :: rest => do
    if isPlain arg then signature.read (← given.addOption key arg) none rest
    else .error .usage
  | none, arg :: rest => do
    if isPlain arg then signature.read (← signature.addPatterns given [arg]) none rest
    -- after two dashes nothing is an option
    else if arg = ['-', '-'] then signature.addPatterns given rest
    else
      let taken ←
        match arg with
        | '-' :: '-' :: text => addLong signature.keys given text
        | _ => addLetters signature.keys given arg.tail
      signature.read taken.given taken.pending rest

/-- The configuration file: given as an option, or else by the environment. -/
def configOf (environment : Option Text) (given : Given) : Except Stop Text :=
  match given.value? .config, environment with
  | some path, _ => .ok path
  | none, some path => if path.isEmpty then .error .usage else .ok path
  | none, none => .error .usage

/-- The patterns, of which there must be one. -/
def patternsOf (given : Given) : Except Stop (List Text) :=
  if given.positional.isEmpty then .error .usage else .ok given.positional

def generateSignature : Signature where
  keys := [.config, .output, .includePath, .noToolchainCheck, .json, .verbose, .help]
  takesPatterns := true

def readGenerate (environment : Option Text) (args : List Text) : Except Stop Invocation := do
  let given ← generateSignature.read {} none args
  let config ← configOf environment given
  let patterns ← patternsOf given
  return {
    command := .generate {
      config, patterns
      output := given.value? .output
      includes := given.values .includePath
      checksToolchain := !given.has .noToolchainCheck
      json := given.has .json }
    verbose := given.has .verbose }

def checkSignature : Signature where
  keys := [.verbose, .help]
  takesPatterns := true

def readCheck (args : List Text) : Except Stop Invocation := do
  let given ← checkSignature.read {} none args
  return { command := .check (← patternsOf given), verbose := given.has .verbose }

def listMacrosSignature : Signature where
  keys := [.config, .json, .verbose, .help]
  takesPatterns := false

def readListMacros (environment : Option Text) (args : List Text) : Except Stop Invocation := do
  let given ← listMacrosSignature.read {} none args
  let config ← configOf environment given
  return { command := .listMacros config (given.has .json), verbose := given.has .verbose }

/-- The names that commands are called by. -/
def commandNames : List Text :=
  ["generate", "check", "macros", "help"]

/-- Read the arguments after `help`: at most the name of one command. -/
def readHelp : List Text → Except Stop Invocation
  | [] => .error .help
  | [name] => .error (if commandNames.contains name then .help else .usage)
  | _ => .error .usage

/-- Read the name of the command and what follows it. -/
def readCommand (environment : Option Text) (name : Text) (args : List Text) :
    Except Stop Invocation :=
  if name = ("generate" : Text) then readGenerate environment args
  else if name = ("check" : Text) then readCheck args
  else if name = ("macros" : Text) then readListMacros environment args
  else if name = ("help" : Text) then readHelp args
  else .error .usage

/-- Read all arguments; the flags before the command hold for it too. -/
def readFrom (environment : Option Text) (given : Given) : List Text → Except Stop Invocation
  | [] => .error .usage
  | arg :: rest => do
    if isPlain arg then
      let invocation ← readCommand environment arg rest
      return { invocation with verbose := invocation.verbose || given.has .verbose }
    else if arg = ['-', '-'] then .error .usage
    else
      let keys := [Key.verbose, .help, .version]
      let taken ←
        match arg with
        | '-' :: '-' :: text => addLong keys given text
        | _ => addLetters keys given arg.tail
      readFrom environment taken.given rest

/-- What the arguments ask for. The environment may name a configuration file. -/
def read (environment : Option Text) (args : List Text) : Except Stop Invocation :=
  readFrom environment {} args

end CommandLine

end TemplateSuite
