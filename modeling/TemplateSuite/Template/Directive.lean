import TemplateSuite.Text.Digit
import TemplateSuite.Path.Relative
import TemplateSuite.Macro.Call

namespace TemplateSuite

/-- A request for one generated file. -/
structure FileDirective where
  /-- The path of the file below the directory of the section. -/
  name : Text
  /-- The call whose expansion is the content. -/
  call : Call
  /-- The expected result, passed on to the report. -/
  expect : Option UInt32
  deriving DecidableEq, Repr, Inhabited

/-- Why a text is no file directive. -/
inductive DirectiveFault where
  | malformed
  | unsafePath (fault : UnsafePath)
  | badCall (call : Text)
  /-- The digits denote no number that an expectation can have. -/
  | badExpectation (digits : Text)
  deriving DecidableEq, Repr, Inhabited

namespace DirectiveFault

def message : DirectiveFault → Text
  | .malformed => "expected '@file <name> $macro(args) [@ok <n> @ok_] @file_'"
  | .unsafePath fault => fault.message
  | .badCall call => "invalid macro call '" ++ call ++ "'"
  | .badExpectation digits => "invalid @ok value '" ++ digits ++ "'"

end DirectiveFault

namespace FileDirective

/-- The texts of the parts of a directive. -/
structure Parts where
  name : Text
  call : Text
  digits : Option Text
  deriving DecidableEq, Repr, Inhabited

/-- What follows white space, of which there must be some. -/
def afterBlank? (text : Text) : Option Text :=
  if text.head?.any Text.isBlank then some (Text.trimLeft text) else none

/-- The digits of `@ok N @ok_`, which must be the whole text after some white space. -/
def expectation? (text : Text) : Option Text := do
  let opened ← Text.after? "@ok" (← afterBlank? text)
  let number ← afterBlank? opened
  let closing ← afterBlank? (number.dropWhile Text.isDigit)
  if number.takeWhile Text.isDigit ≠ [] ∧ closing = "@ok_" then
    some (number.takeWhile Text.isDigit)
  else none

/-- The text of the call at the beginning of a text, and what follows it. -/
def callAtStart? (text : Text) : Option (Text × Text) :=
  match Call.nameAtStart? text with
  | none => none
  | some (name, after) =>
    -- the list may stand apart from the name
    match Reference.listAtStart? (Text.trimLeft after) with
    | some (list, rest) =>
      some (name ++ after.takeWhile Text.isBlank ++ '(' :: list ++ [')'], rest)
    | none => some (name, after)

/-- The parts of a trimmed text that has the form of a directive. -/
def parts? (text : Text) : Option Parts := do
  let name := text.takeWhile (!Text.isBlank ·)
  let (call, after) ← callAtStart? (Text.trimLeft (text.dropWhile (!Text.isBlank ·)))
  if name = [] then none
  else if after = [] then some ⟨name, call, none⟩
  else return ⟨name, call, some (← expectation? after)⟩

/-- The number that the digits of an expectation denote. -/
def readExpect : Option Text → Except DirectiveFault (Option UInt32)
  | none => .ok none
  | some digits =>
    match Text.readDecimal? digits with
    | some n =>
      if n < UInt32.size then .ok (some (UInt32.ofNat n)) else .error (.badExpectation digits)
    | none => .error (.badExpectation digits)

/-- The directive that a text between `@file` and `@file_` gives. -/
def parse (text : Text) : Except DirectiveFault FileDirective :=
  match parts? (Text.trim text) with
  | none => .error .malformed
  | some parts =>
    match Path.checkRelative parts.name with
    | .error fault => .error (.unsafePath fault)
    | .ok () =>
      match Call.parse? parts.call with
      | none => .error (.badCall parts.call)
      | some call =>
        match readExpect parts.digits with
        | .error fault => .error fault
        | .ok expect => .ok ⟨parts.name, call, expect⟩

end FileDirective

end TemplateSuite
