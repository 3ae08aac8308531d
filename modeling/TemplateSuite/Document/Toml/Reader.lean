import TemplateSuite.Document.Toml.Scalar
import TemplateSuite.Document.Toml.Table

namespace TemplateSuite

namespace Toml

/-- Drop white space, comments and ends of lines in front. -/
def skipFiller (inComment : Bool) : Text → Text
  | [] => []
  | c :: rest =>
    -- a comment lasts until something that may not stand in it
    if inComment && isPrintable c then skipFiller true rest
    else if isSpace c then skipFiller false rest
    else if c = '#' then skipFiller true rest
    else if c = '\n' then skipFiller false rest
    else if c = '\r' ∧ rest.head? = some '\n' then skipFiller false rest
    else c :: rest

/-- Drop white space, comments and ends of lines in front. -/
def skipLines (text : Text) : Text :=
  skipFiller false text

/-- Add a member to the members of an inline table, where all dotted tables are made by keys. -/
def insertInline (path : List Text) (value : Node) (members : Members) : Option Members :=
  match path.getLast? with
  | none => none
  | some key => insertValue path.dropLast key value .header members

mutual

/-- A value at the beginning of a text, and what follows it. The fuel must exceed the length of the
text; `depth` more levels of lists and inline tables are allowed. -/
def readValue? : (fuel depth : Nat) → Text → Option (Value × Text)
  | 0, _, _ => none
  | fuel + 1, depth, text =>
    match text with
    | '[' :: rest =>
      match depth with
      | 0 => none
      | depth + 1 => do
        let (items, rest) ← readItems? fuel depth (skipLines rest)
        return (.list items, rest)
    | '\x7b' :: rest =>
      match depth with
      | 0 => none
      | depth + 1 => do
        match skipSpace rest with
        | '\x7d' :: rest => return (.record [], rest)
        | rest =>
          let (members, rest) ← readInline? fuel depth [] rest
          return (.record (membersToValues members), rest)
    | _ => readScalar? text

/-- The items of a list up to its closing bracket. A comma may follow the last one. -/
def readItems? : (fuel depth : Nat) → Text → Option (List Value × Text)
  | 0, _, _ => none
  | fuel + 1, depth, text =>
    match text with
    | ']' :: rest => some ([], rest)
    | _ => do
      let (item, rest) ← readValue? fuel depth text
      match skipLines rest with
      | ']' :: rest => return ([item], rest)
      | ',' :: rest =>
        let (items, rest) ← readItems? fuel depth (skipLines rest)
        return (item :: items, rest)
      | _ => none

/-- The members of an inline table from one member on, up to its closing brace. -/
def readInline? : (fuel depth : Nat) → Members → Text → Option (Members × Text)
  | 0, _, _, _ => none
  | fuel + 1, depth, members, text => do
    let (path, rest) ← readKey? text
    let (value, rest) ← readValue? fuel depth (skipSpace (← afterChar? '=' (skipSpace rest)))
    let members ← insertInline path (.value value) members
    match skipSpace rest with
    | '\x7d' :: rest => return (members, rest)
    | ',' :: rest => readInline? fuel depth members rest
    | _ => none

end

/-- What follows the end of a line; before it there may be white space and a comment. -/
def afterLine? (text : Text) : Option Text :=
  match skipComment (skipSpace text) with
  | [] => some []
  | rest => afterNewline? rest

/-- A document read so far: its root table and the path of the table that keys add to. -/
structure State where
  root : Members := []
  current : List Text := []
  deriving Inhabited

namespace State

/-- Add a key with its value to the current table. -/
def insert (s : State) (path : List Text) (value : Node) : Option State := do
  let key ← path.getLast?
  let root ← changeOpened (insertValue path.dropLast key value) s.current s.root
  return { s with root }

/-- Open a table, or the next table of an array, that keys are added to from now on. -/
def openHeader (s : State) (isArray : Bool) (path : List Text) : Option State := do
  let key ← path.getLast?
  let make := if isArray then openArrayTable key else openTable key
  let root ← descend false (fun _ members => make members) path.dropLast .header s.root
  return { root, current := path }

end State

/-- Take in a key with its value or a header at the beginning of a text that is not empty. -/
def readExpression? (s : State) (text : Text) : Option (State × Text) :=
  match text with
  | '[' :: '[' :: rest => do
    let (path, rest) ← readKey? rest
    let s ← s.openHeader true path
    return (s, ← Text.after? "]]" (skipSpace rest))
  | '[' :: rest => do
    let (path, rest) ← readKey? rest
    let s ← s.openHeader false path
    return (s, ← Text.after? "]" (skipSpace rest))
  | _ => do
    let (path, rest) ← readKey? text
    let rest := skipSpace (← afterChar? '=' (skipSpace rest))
    let (value, rest) ← readValue? (rest.length + 1) maxDepth rest
    return (← s.insert path (.value value), rest)

/-- Take in lines until the text ends. -/
def readLines? : (fuel : Nat) → State → Text → Option State
  | 0, _, _ => none
  | fuel + 1, s, text =>
    match skipLines text with
    | [] => some s
    | text => do
      let (s, rest) ← readExpression? s text
      readLines? fuel s (← afterLine? rest)

/-- The record that a document denotes. A byte order mark in front is dropped. -/
def parse? (text : Text) : Option Value := do
  let text := (Text.after? ['\ufeff'] text).getD text
  let s ← readLines? (text.length + 1) {} text
  return .record (membersToValues s.root)

end Toml

end TemplateSuite
