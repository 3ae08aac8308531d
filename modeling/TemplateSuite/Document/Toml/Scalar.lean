import TemplateSuite.Document.Toml.Number

namespace TemplateSuite

namespace Toml

/-- White space within a line. -/
def isSpace (c : Char) : Bool :=
  c == ' ' || c == '\t'

def skipSpace (text : Text) : Text :=
  text.dropWhile isSpace

/-- What follows the end of a line. -/
def afterNewline? : Text → Option Text
  | '\n' :: rest => some rest
  | '\r' :: '\n' :: rest => some rest
  | _ => none

/-- A character that may stand in a comment or a literal string: no control character but a tab. -/
def isPrintable (c : Char) : Bool :=
  c == '\t' || (0x20 ≤ c.toNat && c.toNat != 0x7f)

/-- Drop a comment in front, up to the end of its line. -/
def skipComment : Text → Text
  | '#' :: rest => rest.dropWhile isPrintable
  | text => text

/-- A character of a key without quotes. -/
def isBareKeyChar (c : Char) : Bool :=
  c.isAlphanum || c == '_' || c == '-'

/-- The character that a backslash and a letter stand for. -/
def shortEscape? (c : Char) : Option Char :=
  match c with
  | 'b' => some '\x08'
  | 't' => some '\t'
  | 'n' => some '\n'
  | 'f' => some '\x0c'
  | 'r' => some '\r'
  | '"' => some '"'
  | '\\' => some '\\'
  | _ => none

/-- The character that a number of hexadecimal digits stands for. -/
def readCodePoint? (digits : Nat) (text : Text) : Option (Char × Text) := do
  let value ← Text.readDigits? 16 (text.take digits)
  if (text.take digits).length = digits ∧ value.isValidChar then
    some (Char.ofNat value, text.drop digits)
  else none

/-- The character of an escape, read after its backslash. -/
def readEscape? : Text → Option (Char × Text)
  | 'u' :: rest => readCodePoint? 4 rest
  | 'U' :: rest => readCodePoint? 8 rest
  | c :: rest => (shortEscape? c).map (·, rest)
  | [] => none

/-- Continue reading a basic string on one line, up to the closing quote. -/
def readBasic? : (fuel : Nat) → Text → Option (Text × Text)
  | 0, _ => none
  | _ + 1, '"' :: rest => some ([], rest)
  | fuel + 1, '\\' :: rest => do
    let (c, rest) ← readEscape? rest
    let (string, rest) ← readBasic? fuel rest
    return (c :: string, rest)
  | fuel + 1, c :: rest => do
    if isPrintable c then
      let (string, rest) ← readBasic? fuel rest
      return (c :: string, rest)
    else none
  | _ + 1, [] => none

/-- Continue reading a literal string on one line, up to the closing apostrophe. -/
def readLiteral? (text : Text) : Option (Text × Text) :=
  match text.dropWhile fun c => isPrintable c && c != '\x27' with
  | '\x27' :: rest => some (text.takeWhile (fun c => isPrintable c && c != '\x27'), rest)
  | _ => none

/-- The number of quotes in front. -/
def countQuotes (quote : Char) (text : Text) : Nat :=
  (text.takeWhile (· == quote)).length

/-- White space and ends of lines in front are dropped. -/
def skipBlankLines : (fuel : Nat) → Text → Text
  | 0, text => text
  | fuel + 1, text =>
    match afterNewline? (skipSpace text) with
    | some rest => skipBlankLines fuel rest
    | none => skipSpace text

/-- Continue reading a string over several lines, up to the three closing quotes. -/
def readMultiline? (quote : Char) (escapes : Bool) : (fuel : Nat) → Text → Option (Text × Text)
  | 0, _ => none
  | _ + 1, [] => none
  | fuel + 1, c :: rest =>
    let quotes := countQuotes quote (c :: rest)
    if 6 ≤ quotes then none
    -- one or two quotes directly before the closing ones belong to the string
    else if 3 ≤ quotes then
      some (List.replicate (quotes - 3) quote, (c :: rest).drop quotes)
    else if c = '\\' ∧ escapes then
      match afterNewline? (skipSpace rest) with
      | some after => readMultiline? quote escapes fuel (skipBlankLines fuel after)
      | none => do
        let (escaped, rest) ← readEscape? rest
        let (string, rest) ← readMultiline? quote escapes fuel rest
        return (escaped :: string, rest)
    else
      match afterNewline? (c :: rest) with
      | some after => do
        let (string, rest) ← readMultiline? quote escapes fuel after
        return ('\n' :: string, rest)
      | none =>
        if isPrintable c then do
          let (string, rest) ← readMultiline? quote escapes fuel rest
          return (c :: string, rest)
        else none

/-- The beginning of a string over several lines: an end of line directly after the quotes is not
part of it. -/
def readMultilineBody? (quote : Char) (escapes : Bool) (text : Text) : Option (Text × Text) :=
  readMultiline? quote escapes (text.length + 1) ((afterNewline? text).getD text)

def readString? (text : Text) : Option (Text × Text) :=
  match text with
  | '"' :: '"' :: '"' :: rest => readMultilineBody? '"' true rest
  | '"' :: rest => readBasic? (rest.length + 1) rest
  | '\x27' :: '\x27' :: '\x27' :: rest => readMultilineBody? '\x27' false rest
  | '\x27' :: rest => readLiteral? rest
  | _ => none

/-- One part of a key. -/
def readSimpleKey? (text : Text) : Option (Text × Text) :=
  match text with
  | '"' :: rest => readBasic? (rest.length + 1) rest
  | '\x27' :: rest => readLiteral? rest
  | _ =>
    match text.takeWhile isBareKeyChar with
    | [] => none
    | key => some (key, text.dropWhile isBareKeyChar)

/-- Continue reading the parts of a key after the first. -/
def readKeyParts? : (fuel : Nat) → Text → Option (List Text × Text)
  | 0, _ => none
  | fuel + 1, text =>
    match skipSpace text with
    | '.' :: rest => do
      let (part, rest) ← readSimpleKey? (skipSpace rest)
      let (parts, rest) ← readKeyParts? fuel rest
      return (part :: parts, rest)
    | rest => some ([], rest)

/-- How deep lists and inline tables may be nested, and how many parts a key may have. -/
def maxDepth : Nat := 79

/-- A key: parts with dots between them. White space around it is dropped. -/
def readKey? (text : Text) : Option (List Text × Text) := do
  let (part, rest) ← readSimpleKey? (skipSpace text)
  let (parts, rest) ← readKeyParts? (rest.length + 1) rest
  if parts.length < maxDepth then return (part :: parts, rest) else none

/-- A number of exactly this many decimal digits within bounds. -/
def readField? (digits low high : Nat) (text : Text) : Option (Nat × Text) := do
  let value ← Text.readDecimal? (text.take digits)
  if (text.take digits).length = digits ∧ low ≤ value ∧ value ≤ high then
    some (value, text.drop digits)
  else none

/-- What follows a given character in front. -/
def afterChar? (c : Char) : Text → Option Text
  | d :: rest => if d = c then some rest else none
  | [] => none

def daysIn (year month : Nat) : Nat :=
  if month = 2 then
    if year % 4 = 0 ∧ (year % 100 ≠ 0 ∨ year % 400 = 0) then 29 else 28
  else if month = 4 ∨ month = 6 ∨ month = 9 ∨ month = 11 then 30
  else 31

def afterDate? (text : Text) : Option Text := do
  let (year, rest) ← readField? 4 0 9999 text
  let (month, rest) ← readField? 2 1 12 (← afterChar? '-' rest)
  let (_, rest) ← readField? 2 1 (daysIn year month) (← afterChar? '-' rest)
  return rest

def afterTime? (text : Text) : Option Text := do
  let (_, rest) ← readField? 2 0 23 text
  let (_, rest) ← readField? 2 0 59 (← afterChar? ':' rest)
  let (_, rest) ← readField? 2 0 60 (← afterChar? ':' rest)
  match rest with
  | '.' :: fraction =>
    if fraction.head?.any Char.isDigit then return fraction.dropWhile Char.isDigit else none
  | _ => return rest

/-- What follows a time offset in front; the offset may be missing. -/
def afterOffset? (text : Text) : Option Text :=
  match text with
  | [] => some []
  | c :: rest =>
    if c = 'Z' ∨ c = 'z' then some rest
    else if c = '+' ∨ c = '-' then do
      let (_, rest) ← readField? 2 0 23 rest
      let (_, rest) ← readField? 2 0 59 (← afterChar? ':' rest)
      return rest
    else some text

/-- What follows a date, a time or both in front. A space between them counts only if a time
follows it. -/
def afterDateTime? (text : Text) : Option Text :=
  match afterDate? text with
  | none => afterTime? text
  | some (c :: rest) =>
    if c = 'T' ∨ c = 't' then (afterTime? rest).bind afterOffset?
    else if c = ' ' then
      match afterTime? rest with
      | some rest => afterOffset? rest
      | none => some (c :: rest)
    else some (c :: rest)
  | some [] => some []

/-- The name of the only member of the record that a date or time is. -/
def dateTimeMember : Text := "$datetime"

/-- A date or time: a record, as it is none of the other values. -/
def readDateTime? (text : Text) : Option (Value × Text) := do
  let rest ← afterDateTime? text
  return (.record [(dateTimeMember, .string (text.take (text.length - rest.length)))], rest)

/-- A value that has no parts. -/
def readScalar? (text : Text) : Option (Value × Text) :=
  match text with
  | [] => none
  | c :: _ =>
    if c = '"' ∨ c = '\x27' then (readString? text).map fun (string, rest) => (.string string, rest)
    else if c = 't' then (Text.after? "true" text).map (.bool true, ·)
    else if c = 'f' then (Text.after? "false" text).map (.bool false, ·)
    else (readDateTime? text).orElse fun _ => (readFloat? text).orElse fun _ => readInteger? text

end Toml

end TemplateSuite
