import TemplateSuite.Document.Value

/-!
Reading JSON. The reader never fails: where the text departs from the grammar it leaves a broken
value and stops.
-/

namespace TemplateSuite

namespace Json

/-- White space between the tokens of JSON. -/
def isSpace (c : Char) : Bool :=
  c == ' ' || c == '\n' || c == '\t' || c == '\r'

/-- Drop white space in front. -/
def skipSpace (text : Text) : Text :=
  text.dropWhile isSpace

/-- A piece of a string: a character, or the number an escape gives. -/
inductive Piece where
  | char (c : Char)
  | unit (value : Nat)
  deriving DecidableEq, Repr, Inhabited

/-- The piece that a backslash and a letter stand for. -/
def shortEscape? (c : Char) : Option Char :=
  match c with
  | '"' => some '"'
  | '\\' => some '\\'
  | '/' => some '/'
  | 'b' => some '\x08'
  | 'f' => some '\x0c'
  | 'n' => some '\n'
  | 'r' => some '\r'
  | 't' => some '\t'
  | _ => none

/-- The pieces of a string up to its closing quote, and what follows the quote. -/
def readPieces : Text → Option (List Piece × Text)
  | [] => none
  | '"' :: rest => some ([], rest)
  | '\\' :: 'u' :: a :: b :: c :: d :: rest => do
    let value ← Text.readDigits? 16 [a, b, c, d]
    let (pieces, rest) ← readPieces rest
    return (.unit value :: pieces, rest)
  | '\\' :: escape :: rest => do
    let c ← shortEscape? escape
    let (pieces, rest) ← readPieces rest
    return (.char c :: pieces, rest)
  | c :: rest =>
    if c.toNat < 0x20 || c == '\\' then none
    else do
      let (pieces, rest) ← readPieces rest
      return (.char c :: pieces, rest)

/-- The first half of a surrogate pair. -/
def isHighHalf (n : Nat) : Bool :=
  0xd800 ≤ n && n < 0xdc00

/-- The second half of a surrogate pair. -/
def isLowHalf (n : Nat) : Bool :=
  0xdc00 ≤ n && n < 0xe000

/-- The character of a surrogate pair. -/
def ofHalves (high low : Nat) : Char :=
  Char.ofNat (0x10000 + (high - 0xd800) * 0x400 + (low - 0xdc00))

/-- The text of the pieces, unless half a surrogate pair stands alone. -/
def joinPieces? : List Piece → Option Text
  | [] => some []
  | .char c :: rest => (joinPieces? rest).map (c :: ·)
  | .unit high :: .unit low :: rest =>
    if isHighHalf high then
      if isLowHalf low then (joinPieces? rest).map (ofHalves high low :: ·) else none
    else if isLowHalf high then none
    else (joinPieces? (.unit low :: rest)).map (Char.ofNat high :: ·)
  | .unit value :: rest =>
    if isHighHalf value || isLowHalf value then none
    else (joinPieces? rest).map (Char.ofNat value :: ·)

/-- A run of ASCII digits in front, and what follows it. -/
def spanDigits (text : Text) : Text × Text :=
  (text.takeWhile Char.isDigit, text.dropWhile Char.isDigit)

/-- The whole part of a number: no leading zeros. -/
def readWhole? : Text → Option (Text × Text)
  | '0' :: rest => some (['0'], rest)
  | text =>
    match spanDigits text with
    | ([], _) => none
    | (digits, rest) => some (digits, rest)

/-- A fraction, which may be missing. -/
def readFraction? : Text → Option (Text × Text)
  | '.' :: rest =>
    match spanDigits rest with
    | ([], _) => none
    | (digits, rest) => some ('.' :: digits, rest)
  | text => some ([], text)

def spanSign : Text → Text × Text
  | '+' :: rest => (['+'], rest)
  | '-' :: rest => (['-'], rest)
  | text => ([], text)

/-- An exponent, which may be missing. -/
def readExponent? (text : Text) : Option (Text × Text) :=
  match text with
  | [] => some ([], [])
  | e :: rest =>
    if e == 'e' || e == 'E' then
      let (sign, rest) := spanSign rest
      match spanDigits rest with
      | ([], _) => none
      | (digits, rest) => some (e :: sign ++ digits, rest)
    else some ([], text)

/-- A number, as it is written. -/
def readNumber? (text : Text) : Option (Text × Text) := do
  let (sign, rest) := match text with
    | '-' :: rest => ((['-'], rest) : Text × Text)
    | text => ([], text)
  let (whole, rest) ← readWhole? rest
  let (fraction, rest) ← readFraction? rest
  let (exponent, rest) ← readExponent? rest
  return (sign ++ whole ++ fraction ++ exponent, rest)

/-- A value that is a single token, read after its white space. -/
def readScalar (text : Text) : Value × Text :=
  match text with
  | '"' :: rest =>
    match readPieces rest with
    | some (pieces, rest) =>
      match joinPieces? pieces with
      | some string => (.string string, rest)
      | none => (.unpaired, rest)
    | none => (.broken, [])
  | _ =>
    match Text.after? "null" text, Text.after? "true" text, Text.after? "false" text with
    | some rest, _, _ => (.null, rest)
    | _, some rest, _ => (.bool true, rest)
    | _, _, some rest => (.bool false, rest)
    | none, none, none =>
      match readNumber? text with
      | some (digits, rest) => (.number digits, rest)
      | none => (.broken, [])

/-- The name of a member and the colon after it. The name is missing if it is no text. -/
def readName? (text : Text) : Option (Option Text × Text) :=
  match text with
  | '"' :: rest => do
    let (pieces, rest) ← readPieces rest
    match skipSpace rest with
    | ':' :: rest => some (joinPieces? pieces, rest)
    | _ => none
  | _ => none

/-- A member of a record. A value whose name is no text is marked. -/
def toMember (name : Option Text) (value : Value) : Text × Value :=
  match name with
  | some name => (name, value)
  | none => ([], .misnamed value)

mutual

/-- A value, and what follows it. The fuel must exceed the length of the text. -/
def readValue : (fuel : Nat) → Text → Value × Text
  | 0, _ => (.broken, [])
  | fuel + 1, text =>
    match skipSpace text with
    | '[' :: rest =>
      match skipSpace rest with
      | ']' :: rest => (.list [], rest)
      | rest =>
        let (items, rest) := readItems fuel rest
        (.list items, rest)
    | '{' :: rest =>
      match skipSpace rest with
      | '}' :: rest => (.record [], rest)
      | rest =>
        let (members, rest) := readMembers fuel rest
        (.record members, rest)
    | text => readScalar text

/-- The items of a list from one item on, and what follows the list. -/
def readItems : (fuel : Nat) → Text → List Value × Text
  | 0, _ => ([.broken], [])
  | fuel + 1, text =>
    let (item, rest) := readValue fuel text
    match skipSpace rest with
    | ',' :: rest =>
      let (items, rest) := readItems fuel rest
      (item :: items, rest)
    | ']' :: rest => ([item], rest)
    | _ => ([item, .broken], [])

/-- The members of a record from one member on, and what follows the record. -/
def readMembers : (fuel : Nat) → Text → List (Text × Value) × Text
  | 0, _ => ([([], .broken)], [])
  | fuel + 1, text =>
    match readName? (skipSpace text) with
    | none => ([([], .broken)], [])
    | some (name, rest) =>
      let (value, rest) := readValue fuel rest
      match skipSpace rest with
      | ',' :: rest =>
        let (members, rest) := readMembers fuel rest
        (toMember name value :: members, rest)
      | '}' :: rest => ([toMember name value], rest)
      | _ => ([toMember name value, ([], .broken)], [])

end

/-- The value at the beginning of a text, and what follows it. -/
def read (text : Text) : Value × Text :=
  readValue (text.length + 1) text

/-- The value that a whole text denotes. -/
def parse? (text : Text) : Option Value :=
  let (value, rest) := read text
  if value.isWhole && (skipSpace rest).isEmpty then some value else none

end Json

end TemplateSuite
