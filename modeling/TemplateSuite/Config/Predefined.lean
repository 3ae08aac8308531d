import TemplateSuite.Config.Basic
import TemplateSuite.Macro.Environment

namespace TemplateSuite

/-- How negative integers are represented. -/
inductive Complement where
  | ones
  | twos
  deriving DecidableEq, Repr, Inhabited

namespace Complement

/-- The representation that a configuration asks for. -/
def ofNumber (n : Nat) : Complement :=
  if n = 1 then .ones else .twos

/-- The least integer of the given width. -/
def least (bits : Nat) : Complement → Int
  | .ones => -(Nat.pow 2 (bits - 1) : Int) + 1
  | .twos => -(Nat.pow 2 (bits - 1) : Int)

end Complement

/-- The limits of an integer type, written as literals. -/
structure IntegerLimits where
  signedMin : Text
  signedMax : Text
  unsignedMin : Text
  unsignedMax : Text
  deriving DecidableEq, Repr, Inhabited

/-- What a literal of the type ends with. -/
def literalEnding (typeName : Text) : Text :=
  if typeName = ("long" : Text) then "L"
  else if typeName = ("long long" : Text) then "LL"
  else []

/-- The limits of an integer type of a width that can be represented. -/
def integerLimits? (typeName : Text) (bits : Nat) (complement : Complement) :
    Option IntegerLimits :=
  if isIntegerWidth bits then
    let ending := literalEnding typeName
    some {
      signedMin := Text.signedDecimal (complement.least bits) ++ ending
      signedMax := Text.decimal (Nat.pow 2 (bits - 1) - 1) ++ ending
      unsignedMin := Text.decimal 0
      unsignedMax := Text.decimal (Nat.pow 2 bits - 1) ++ ending }
  else none

namespace Predefined

/-- The part of a macro name that stands for a type: capital letters without spaces. -/
def stem (typeName : Text) : Text :=
  Text.upper (typeName.filter (· ≠ ' '))

def limitMacros (complement : Complement) (typeName : Text) (bits : Nat) :
    Except MacroFault (List Macro) := do
  match integerLimits? typeName bits complement with
  | none => throw (.badWidth typeName bits)
  | some limits =>
    let stem := stem typeName
    return [
      ← Macro.constant (stem ++ "MIN") limits.signedMin,
      ← Macro.constant (stem ++ "MAX") limits.signedMax,
      ← Macro.constant ('U' :: stem ++ "MIN") limits.unsignedMin,
      ← Macro.constant ('U' :: stem ++ "MAX") limits.unsignedMax]

def toolchainMacros (config : Config) : Except MacroFault (List Macro) :=
  return [
    ← Macro.constant "COMPILER" config.compiler,
    ← Macro.constant "LANG" config.language,
    ← Macro.constant "OPTIONS" (config.optionSeparator.intercalate config.options)]

end Predefined

/-- The environment that templates are processed in at first. -/
def Config.predefinedMacros (config : Config) : Except MacroFault Environment := do
  let complement := Complement.ofNumber config.complement.toNat
  let limits ← config.sizes.integerTypes.mapM fun (typeName, bits) =>
    Predefined.limitMacros complement typeName bits
  let tools ← Predefined.toolchainMacros config
  return Environment.empty.extend (limits.flatten ++ tools)

end TemplateSuite
