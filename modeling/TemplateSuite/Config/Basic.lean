import TemplateSuite.Text.Blank
import TemplateSuite.Macro.Basic

namespace TemplateSuite

/-- The widths of the integer types in bits. -/
structure Sizes where
  char : UInt32
  short : UInt32
  int : UInt32
  long : UInt32
  longLong : Option UInt32 := none
  pointer : Option UInt32 := none
  deriving DecidableEq, Repr, Inhabited

/-- A description of the toolchain and of the target. -/
structure Config where
  /-- The command of the compiler. -/
  compiler : Text
  /-- The command that runs compiled tests. -/
  simulator : Option Text := none
  compilerFlags : List Text := []
  linkerFlags : List Text := []
  /-- The sets of options each test is built with. -/
  options : List Text := []
  /-- The directory of the generated tests. -/
  testDirectory : Text
  compileOnly : Bool := false
  sizes : Sizes
  /-- The seconds one test may take. -/
  timeout : UInt64 := 10
  parallels : UInt64 := 1
  color : Bool := false
  language : Text := "c"
  /-- What a passing test prints. -/
  expect : Text := "@OK@"
  /-- One for ones' complement and two for two's complement. -/
  complement : UInt8 := 2
  outputOption : Text := "-o"
  optionSeparator : Text := " "
  hasPrintf : Bool := true
  /-- Where included files are searched last. -/
  includePaths : List Text := []
  deriving DecidableEq, Repr, Inhabited

/-- What is wrong with a configuration that could be read. -/
inductive ConfigFault where
  | emptyCompiler
  | emptyTestDirectory
  /-- The field for the width of an integer type and the width given. -/
  | badSize (field : Text) (bits : Nat)
  | zeroPointer
  | badComplement (value : Nat)
  deriving DecidableEq, Repr, Inhabited

namespace ConfigFault

def field : ConfigFault → Text
  | .emptyCompiler => "compiler"
  | .emptyTestDirectory => "testdir"
  | .badSize field _ => field
  | .zeroPointer => "size.pointer"
  | .badComplement _ => "complement"

def reason : ConfigFault → Text
  | .emptyCompiler => "must not be empty"
  | .emptyTestDirectory => "must not be empty"
  | .badSize _ bits =>
    "must be between 1 and " ++ Text.decimal maxIntegerBits ++ " (got " ++ Text.decimal bits ++ ")"
  | .zeroPointer => "must not be zero"
  | .badComplement value => "must be 1 or 2 (got " ++ Text.decimal value ++ ")"

end ConfigFault

/-- A width that an integer type with limit macros can have. -/
def isIntegerWidth (bits : Nat) : Bool :=
  0 < bits && bits ≤ maxIntegerBits

namespace Sizes

/-- The integer types that get limit macros, in order, each with its width. -/
def integerTypes (s : Sizes) : List (Text × Nat) :=
  let required : List (Text × Nat) :=
    [("char", s.char.toNat), ("short", s.short.toNat), ("int", s.int.toNat),
      ("long", s.long.toNat)]
  match s.longLong with
  | some bits => required ++ [(("long long" : Text), bits.toNat)]
  | none => required

/-- The configuration field of the width of a type. -/
def fieldOf (typeName : Text) : Text :=
  "size." ++ typeName.map fun c => if c = ' ' then '_' else c

/-- The first type whose width is out of range, as a fault. -/
def fault? (s : Sizes) : Option ConfigFault :=
  match s.integerTypes.find? fun (_, bits) => !isIntegerWidth bits with
  | some (typeName, bits) => some (.badSize (fieldOf typeName) bits)
  | none => if s.pointer = some 0 then some .zeroPointer else none

end Sizes

namespace Config

/-- Check the values of a configuration; the first fault in the order of the checks is reported. -/
def validate (config : Config) : Except ConfigFault Unit :=
  if Text.trim config.compiler = [] then .error .emptyCompiler
  else if config.testDirectory = [] then .error .emptyTestDirectory
  else
    match config.sizes.fault? with
    | some fault => .error fault
    | none =>
      if config.complement = 1 ∨ config.complement = 2 then .ok ()
      else .error (.badComplement config.complement.toNat)

end Config

end TemplateSuite
