import TemplateSuite.Document.Value

namespace TemplateSuite

namespace Json

/-- The escape of a character that has a short one. -/
def shortEscapeOf? (c : Char) : Option Char :=
  match c with
  | '"' => some '"'
  | '\\' => some '\\'
  | '\x08' => some 'b'
  | '\x0c' => some 'f'
  | '\n' => some 'n'
  | '\r' => some 'r'
  | '\t' => some 't'
  | _ => none

/-- A character as it stands in a string: only quotes, backslashes and control characters are
escaped. -/
def writeChar (c : Char) : Text :=
  match shortEscapeOf? c with
  | some letter => ['\\', letter]
  | none =>
    if c.toNat < 0x20 then
      ['\\', 'u', '0', '0', Nat.digitChar (c.toNat / 16), Nat.digitChar (c.toNat % 16)]
    else [c]

/-- A text as a string. -/
def writeText (text : Text) : Text :=
  '"' :: text.flatMap writeChar ++ ['"']

/-- A value without parts. What is no JSON value is written as `null`. -/
def writeScalar : Value → Text
  | .bool true => "true"
  | .bool false => "false"
  | .number digits => digits
  | .string text => writeText text
  | _ => "null"

mutual

/-- A value on one line, without spaces. -/
def write : Value → Text
  | .list items => '[' :: [','].intercalate (writeItems items) ++ [']']
  | .record members => '\x7b' :: [','].intercalate (writeMembers members) ++ ['\x7d']
  | value => writeScalar value

def writeItems : List Value → List Text
  | [] => []
  | item :: rest => write item :: writeItems rest

def writeMembers : List (Text × Value) → List Text
  | [] => []
  | (name, value) :: rest => (writeText name ++ ':' :: write value) :: writeMembers rest

end

/-- The beginning of a line at the given depth. -/
def newline (depth : Nat) : Text :=
  '\n' :: List.replicate (2 * depth) ' '

/-- Parts between brackets, each on a line of its own one level deeper; no parts take no lines. -/
def spread (opening closing : Char) (depth : Nat) (parts : List Text) : Text :=
  if parts = [] then [opening, closing]
  else
    opening :: newline (depth + 1) ++ (',' :: newline (depth + 1)).intercalate parts ++
      newline depth ++ [closing]

mutual

/-- A value spread over lines, with two spaces for each level. -/
def writePretty (depth : Nat) : Value → Text
  | .list items => spread '[' ']' depth (prettyItems (depth + 1) items)
  | .record members => spread '\x7b' '\x7d' depth (prettyMembers (depth + 1) members)
  | value => writeScalar value

def prettyItems (depth : Nat) : List Value → List Text
  | [] => []
  | item :: rest => writePretty depth item :: prettyItems depth rest

def prettyMembers (depth : Nat) : List (Text × Value) → List Text
  | [] => []
  | (name, value) :: rest =>
    (writeText name ++ ':' :: ' ' :: writePretty depth value) :: prettyMembers depth rest

end

end Json

end TemplateSuite
