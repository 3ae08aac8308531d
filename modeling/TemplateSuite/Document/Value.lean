import TemplateSuite.Text.Basic

/-!
Values of structured documents. JSON and TOML texts are read into one type of values, which is also
what is written as JSON. A reader that meets a fault keeps what it has read and marks the place, so
that whoever visits the value in order finds out how far the document is sound.
-/

namespace TemplateSuite

/-- A value of a document. Numbers keep the text they were written with. -/
inductive Value where
  | null
  | bool (value : Bool)
  | number (digits : Text)
  | string (text : Text)
  | list (items : List Value)
  | record (members : List (Text × Value))
  /-- A string with half a surrogate pair: a value, but no text. -/
  | unpaired
  /-- The value of a member whose name has half a surrogate pair. -/
  | misnamed (value : Value)
  /-- The place where the document stops being well formed. -/
  | broken
  deriving Repr, Inhabited

namespace Value

def ofNat (n : Nat) : Value :=
  .number (Text.decimal n)

/-- The value, or `null` if there is none. -/
def ofOption (encode : α → Value) : Option α → Value
  | none => .null
  | some a => encode a

def ofTexts (texts : List Text) : Value :=
  .list (texts.map .string)

def member? (name : Text) : Value → Option Value
  | .record members => members.lookup name
  | _ => none

mutual

/-- The document is well formed throughout this value. -/
def isWhole : Value → Bool
  | .list items => areWhole items
  | .record members => haveWhole members
  | .misnamed value => isWhole value
  | .broken => false
  | _ => true

def areWhole : List Value → Bool
  | [] => true
  | item :: rest => isWhole item && areWhole rest

def haveWhole : List (Text × Value) → Bool
  | [] => true
  | (_, value) :: rest => isWhole value && haveWhole rest

end

end Value

end TemplateSuite
