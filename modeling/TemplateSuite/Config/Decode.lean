import TemplateSuite.Config.Basic
import TemplateSuite.Document.Json.Reader

/-!
Configurations as document values. A configuration is a record whose members may come in any order
and beside members of other names, or a list of its fields in their order. The members are visited
as they come and the first complaint counts; a field that is missing is noticed at the end.
-/

namespace TemplateSuite

/-- Why a value is no configuration. -/
inductive DecodeError where
  /-- A required field is not there. -/
  | missingField (name : Text)
  /-- Anything else: the document is not well formed, or a field has a value it cannot have. -/
  | unacceptable
  deriving DecidableEq, Repr, Inhabited

/-- The kinds of documents that hold configurations. -/
inductive DocumentFormat where
  | json
  | toml
  deriving DecidableEq, Repr, Inhabited

namespace DocumentFormat

/-- A list of fields may be followed by more items. -/
def allowsExtraItems : DocumentFormat → Bool
  | .json => false
  | .toml => true

end DocumentFormat

namespace Decode

abbrev Result (α : Type) := Except DecodeError α

def text : Value → Result Text
  | .string t => .ok t
  | _ => .error .unacceptable

def bool : Value → Result Bool
  | .bool b => .ok b
  | _ => .error .unacceptable

/-- A natural number below a bound, written as plain digits. -/
def natBelow (bound : Nat) : Value → Result Nat
  | .number digits =>
    match Text.readDecimal? digits with
    | some n => if n < bound then .ok n else .error .unacceptable
    | none => .error .unacceptable
  | _ => .error .unacceptable

def uint8 (value : Value) : Result UInt8 :=
  (natBelow UInt8.size value).map UInt8.ofNat

def uint32 (value : Value) : Result UInt32 :=
  (natBelow UInt32.size value).map UInt32.ofNat

def uint64 (value : Value) : Result UInt64 :=
  (natBelow UInt64.size value).map UInt64.ofNat

/-- Nothing, or what `decode` accepts. -/
def optional (decode : Value → Result α) : Value → Result (Option α)
  | .null => .ok none
  | value => (decode value).map some

def texts : Value → Result (List Text)
  | .list items => items.mapM text
  | _ => .error .unacceptable

/-- Fill a field that may be given once. -/
def fill (decode : Value → Result α) (old : Option α) (value : Value) : Result (Option α) :=
  match old with
  | some _ => .error .unacceptable
  | none => (decode value).map some

/-- The value of a field that must have been given. -/
def require (name : Text) : Option α → Result α
  | some a => .ok a
  | none => .error (.missingField name)

/-- Visit the members of a record in order. Every name must be a text. -/
def visit (add : δ → Text → Value → Result δ) : δ → List (Text × Value) → Result δ
  | draft, [] => .ok draft
  | _, (_, .misnamed _) :: _ => .error .unacceptable
  | draft, (name, value) :: rest => do visit add (← add draft name value) rest

/-- The items of a list as members named by the fields whose order they have. Where no more items
may follow, those that do are a fault of the document. -/
def nameItems (format : DocumentFormat) (names : List Text) (items : List Value) :
    List (Text × Value) :=
  if items.length ≤ names.length || format.allowsExtraItems then names.zip items
  else names.zip items ++ [([], .broken)]

/-- Skip a member of a name that means nothing here. -/
def skip (draft : δ) (value : Value) : Result δ :=
  if value.isWhole then .ok draft else .error .unacceptable

end Decode

/-- The widths read so far. -/
structure SizesDraft where
  char : Option UInt32 := none
  short : Option UInt32 := none
  int : Option UInt32 := none
  long : Option UInt32 := none
  longLong : Option (Option UInt32) := none
  pointer : Option (Option UInt32) := none
  deriving Inhabited

namespace SizesDraft

open Decode

def names : List Text :=
  ["char", "short", "int", "long", "long_long", "pointer"]

def add (d : SizesDraft) (name : Text) (value : Value) : Result SizesDraft :=
  if name = ("char" : Text) then return { d with char := ← fill uint32 d.char value }
  else if name = ("short" : Text) then return { d with short := ← fill uint32 d.short value }
  else if name = ("int" : Text) then return { d with int := ← fill uint32 d.int value }
  else if name = ("long" : Text) then return { d with long := ← fill uint32 d.long value }
  else if name = ("long_long" : Text) then
    return { d with longLong := ← fill (optional uint32) d.longLong value }
  else if name = ("pointer" : Text) then
    return { d with pointer := ← fill (optional uint32) d.pointer value }
  else skip d value

/-- The widths, if all required ones are there. -/
def finish (d : SizesDraft) : Result Sizes := do
  return {
    char := ← require "char" d.char
    short := ← require "short" d.short
    int := ← require "int" d.int
    long := ← require "long" d.long
    longLong := d.longLong.join
    pointer := d.pointer.join }

end SizesDraft

/-- The widths that a value gives. -/
def Sizes.decode (format : DocumentFormat) : Value → Decode.Result Sizes
  | .record members => do (← Decode.visit SizesDraft.add {} members).finish
  | .list items => do
    let draft ← Decode.visit SizesDraft.add {} (Decode.nameItems format SizesDraft.names items)
    draft.finish.mapError fun _ => .unacceptable
  | _ => .error .unacceptable

/-- The fields of a configuration read so far. -/
structure ConfigDraft where
  compiler : Option Text := none
  simulator : Option (Option Text) := none
  compilerFlags : Option (List Text) := none
  linkerFlags : Option (List Text) := none
  options : Option (List Text) := none
  testDirectory : Option Text := none
  compileOnly : Option Bool := none
  sizes : Option Sizes := none
  timeout : Option UInt64 := none
  parallels : Option UInt64 := none
  color : Option Bool := none
  language : Option Text := none
  expect : Option Text := none
  complement : Option UInt8 := none
  outputOption : Option Text := none
  optionSeparator : Option Text := none
  hasPrintf : Option Bool := none
  includePaths : Option (List Text) := none
  deriving Inhabited

namespace ConfigDraft

open Decode

def names : List Text :=
  ["compiler", "simulator", "c_flags", "ld_flags", "options", "testdir", "compile_only", "size",
    "timeout", "parallels", "color", "lang", "expect", "complement", "output_option",
    "option_separator", "has_printf", "include_paths"]

def add (format : DocumentFormat) (d : ConfigDraft) (name : Text) (value : Value) :
    Result ConfigDraft :=
  if name = ("compiler" : Text) then return { d with compiler := ← fill text d.compiler value }
  else if name = ("simulator" : Text) then
    return { d with simulator := ← fill (optional text) d.simulator value }
  else if name = ("c_flags" : Text) then
    return { d with compilerFlags := ← fill texts d.compilerFlags value }
  else if name = ("ld_flags" : Text) then
    return { d with linkerFlags := ← fill texts d.linkerFlags value }
  else if name = ("options" : Text) then return { d with options := ← fill texts d.options value }
  else if name = ("testdir" : Text) then
    return { d with testDirectory := ← fill text d.testDirectory value }
  else if name = ("compile_only" : Text) then
    return { d with compileOnly := ← fill bool d.compileOnly value }
  else if name = ("size" : Text) then
    return { d with sizes := ← fill (Sizes.decode format) d.sizes value }
  else if name = ("timeout" : Text) then return { d with timeout := ← fill uint64 d.timeout value }
  else if name = ("parallels" : Text) then
    return { d with parallels := ← fill uint64 d.parallels value }
  else if name = ("color" : Text) then return { d with color := ← fill bool d.color value }
  else if name = ("lang" : Text) then return { d with language := ← fill text d.language value }
  else if name = ("expect" : Text) then return { d with expect := ← fill text d.expect value }
  else if name = ("complement" : Text) then
    return { d with complement := ← fill uint8 d.complement value }
  else if name = ("output_option" : Text) then
    return { d with outputOption := ← fill text d.outputOption value }
  else if name = ("option_separator" : Text) then
    return { d with optionSeparator := ← fill text d.optionSeparator value }
  else if name = ("has_printf" : Text) then
    return { d with hasPrintf := ← fill bool d.hasPrintf value }
  else if name = ("include_paths" : Text) then
    return { d with includePaths := ← fill texts d.includePaths value }
  else skip d value

/-- The configuration, if all required fields are there; the others have defaults. -/
def finish (d : ConfigDraft) : Result Config := do
  let base : Config := {
    compiler := ← require "compiler" d.compiler
    testDirectory := ← require "testdir" d.testDirectory
    sizes := ← require "size" d.sizes }
  return { base with
    simulator := d.simulator.join
    compilerFlags := d.compilerFlags.getD base.compilerFlags
    linkerFlags := d.linkerFlags.getD base.linkerFlags
    options := d.options.getD base.options
    compileOnly := d.compileOnly.getD base.compileOnly
    timeout := d.timeout.getD base.timeout
    parallels := d.parallels.getD base.parallels
    color := d.color.getD base.color
    language := d.language.getD base.language
    expect := d.expect.getD base.expect
    complement := d.complement.getD base.complement
    outputOption := d.outputOption.getD base.outputOption
    optionSeparator := d.optionSeparator.getD base.optionSeparator
    hasPrintf := d.hasPrintf.getD base.hasPrintf
    includePaths := d.includePaths.getD base.includePaths }

end ConfigDraft

/-- The configuration that a value gives; its values are not checked. -/
def Config.decode (format : DocumentFormat) : Value → Decode.Result Config
  | .record members => do (← Decode.visit (ConfigDraft.add format) {} members).finish
  | .list items => do
    let members := Decode.nameItems format ConfigDraft.names items
    let draft ← Decode.visit (ConfigDraft.add format) {} members
    draft.finish.mapError fun _ => .unacceptable
  | _ => .error .unacceptable

end TemplateSuite
