import TemplateSuite.Template.Line
import TemplateSuite.Text.Lines

namespace TemplateSuite

/-- A section that was opened and not yet closed. -/
structure OpenSection where
  tag : Text
  /-- The line that opened it. -/
  line : Nat
  deriving DecidableEq, Repr, Inhabited

/-- Why the sections of a text are not well nested. -/
inductive NestingError where
  /-- A closing line for `found` while the section `innermost` is the innermost open one. -/
  | mismatched (found : Text) (line : Nat) (innermost : OpenSection)
  /-- A closing line while no section is open. -/
  | unexpectedClose (tag : Text) (line : Nat)
  /-- The text ends while these sections are open, outermost first. -/
  | unterminated (sections : List OpenSection)
  deriving DecidableEq, Repr, Inhabited

namespace NestingError

/-- The complaint about one section left open. -/
def unterminatedMessage (unclosed : OpenSection) : Text :=
  "'" ++ unclosed.tag ++ "' section doesn't have end of section (at " ++
    Text.decimal unclosed.line ++ ")"

def message : NestingError → Text
  | .mismatched found line innermost =>
    "Unexpected end of '" ++ found ++ "' at line " ++ Text.decimal line ++ ": '" ++ innermost.tag ++
      "' section (at " ++ Text.decimal innermost.line ++ ") is still open"
  | .unexpectedClose tag line =>
    "Found only '" ++ tag ++ "' end at line " ++ Text.decimal line
  | .unterminated sections => ['\n'].intercalate (sections.map unterminatedMessage)

end NestingError

namespace Nesting

/-- The stack of open sections, innermost first, after one more line. -/
def step (stack : List OpenSection) (number : Nat) : Line → Except NestingError (List OpenSection)
  | .opening tag _ false => .ok (⟨tag, number⟩ :: stack)
  | .opening _ _ true => .ok stack
  | .text => .ok stack
  | .closing tag =>
    match stack with
    | [] => .error (.unexpectedClose tag number)
    | innermost :: outer =>
      if innermost.tag = tag then .ok outer else .error (.mismatched tag number innermost)

/-- The stack after the given lines, the first of which has the given number. -/
def run (stack : List OpenSection) (number : Nat) :
    List Text → Except NestingError (List OpenSection)
  | [] => .ok stack
  | line :: rest =>
    match step stack number (Line.classify line) with
    | .ok next => run next (number + 1) rest
    | .error e => .error e

end Nesting

/-- Check that the sections of a text are well nested, counting its lines from one. -/
def checkNesting (text : Text) : Except NestingError Unit :=
  match Nesting.run [] 1 (Text.lines text) with
  | .ok [] => .ok ()
  | .ok stack => .error (.unterminated stack.reverse)
  | .error e => .error e

end TemplateSuite
