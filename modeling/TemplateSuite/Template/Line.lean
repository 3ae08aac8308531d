import TemplateSuite.Text.Blank

/-!
The kinds of template lines. A line `@tag argument` opens a section, `@tag_` closes one, and
`@tag argument @tag_` does both; every other line is text. The checker, the scanner and the comment
filter all see a template through `Line.classify`.
-/

namespace TemplateSuite

/-- What one template line does. -/
inductive Line where
  /-- `@tag argument`; `closed` if the line also ends its section. -/
  | opening (tag argument : Text) (closed : Bool)
  /-- `@tag_`. -/
  | closing (tag : Text)
  /-- Any other line. -/
  | text
  deriving DecidableEq, Repr, Inhabited

namespace Line

/-- A character that can stand in a tag: neither an underscore nor white space. -/
def isTagChar (c : Char) : Bool :=
  !(c == '_' || Text.isBlank c)

/-- The text that closes a section with this tag. -/
def closeMarker (tag : Text) : Text :=
  '@' :: tag ++ ['_']

/-- The kind of an opening line, from its tag and what follows the tag. -/
def ofOpening (tag after : Text) : Line :=
  let argument := Text.trim after
  match Text.before? (closeMarker tag) argument with
  | some inner => .opening tag (Text.trim inner) true
  | none => .opening tag argument false

/-- The kind of a line whose tag is not empty, from what follows the tag. -/
def ofTagged (tag : Text) : Text → Line
  | '_' :: trailing => if Text.allBlank trailing then .closing tag else .text
  | after => ofOpening tag after

/-- The kind of a line. -/
def classify : Text → Line
  | '@' :: rest =>
    match rest.takeWhile isTagChar with
    | [] => .text
    | tag => ofTagged tag (rest.dropWhile isTagChar)
  | _ => .text

theorem length_pos_of_classify_ne_text {line : Text} (h : classify line ≠ .text) :
    0 < line.length := by
  cases line with
  | nil => exact absurd rfl h
  | cons c rest => simp

end Line

end TemplateSuite
