import TemplateSuite.Text.Blank

namespace TemplateSuite

namespace Argument

/-- Where the cutting stands: between quotes or not, and inside how many brackets. -/
structure Position where
  quoted : Bool
  depth : Nat
  deriving DecidableEq, Repr, Inhabited

namespace Position

/-- Before the first character. -/
def start : Position := ⟨false, 0⟩

/-- A comma here separates two arguments. -/
def separates (p : Position) : Bool :=
  !p.quoted && p.depth == 0

/-- The position after one more character. A closing bracket without an opening one is ignored. -/
def next (p : Position) (c : Char) : Position :=
  if c = '"' then { p with quoted := !p.quoted }
  else if p.quoted then p
  else if c = '[' then { p with depth := p.depth + 1 }
  else if c = ']' then { p with depth := p.depth - 1 }
  else p

end Position

/-- Put a character in front of the first piece. -/
def addToFirst (c : Char) : List Text → List Text
  | [] => [[c]]
  | piece :: pieces => (c :: piece) :: pieces

/-- The pieces between separating commas. -/
def cut : Position → Text → List Text
  | _, [] => [[]]
  | p, c :: rest =>
    if c = ',' && p.separates then [] :: cut p rest else addToFirst c (cut (p.next c) rest)

/-- The first and the last character are the given pair. -/
def isBetween (first last : Char) (text : Text) : Bool :=
  2 ≤ text.length && text.head? == some first && text.getLast? == some last

/-- The piece trimmed, and without one surrounding pair of quotes or brackets. -/
def unwrap (piece : Text) : Text :=
  let text := Text.trim piece
  if isBetween '"' '"' text || isBetween '[' ']' text then Text.trim text.tail.dropLast else text

end Argument

/-- The arguments of a call, from the text between its parentheses; a blank text has none. -/
def splitArguments (list : Text) : List Text :=
  if Text.allBlank list then [] else (Argument.cut .start list).map Argument.unwrap

end TemplateSuite
