import TemplateSuite.Document.Json.Reader

namespace TemplateSuite

namespace Json

/-- Nothing but white space. -/
def AreBlank (blanks : Text) : Prop :=
  ∀ c ∈ blanks, isSpace c

/-- At least one ASCII digit, and nothing else. -/
def AreDigits (digits : Text) : Prop :=
  digits ≠ [] ∧ ∀ c ∈ digits, c.isDigit

/-- The whole part of a number begins with a zero only if it is zero. -/
def IsWhole (whole : Text) : Prop :=
  AreDigits whole ∧ (whole.head? = some '0' → whole = ['0'])

/-- The fraction of a number, if it has one. -/
inductive IsFraction : Text → Prop
  | absent : IsFraction []
  | digits {digits : Text} : AreDigits digits → IsFraction ('.' :: digits)

/-- The exponent of a number, if it has one. -/
inductive IsExponent : Text → Prop
  | absent : IsExponent []
  | digits {e : Char} {sign digits : Text} : e = 'e' ∨ e = 'E' →
      sign = [] ∨ sign = ['+'] ∨ sign = ['-'] → AreDigits digits → IsExponent (e :: sign ++ digits)

/-- A number. -/
inductive IsNumber : Text → Prop
  | parts {sign whole fraction exponent : Text} : sign = [] ∨ sign = ['-'] → IsWhole whole →
      IsFraction fraction → IsExponent exponent → IsNumber (sign ++ whole ++ fraction ++ exponent)

/-- The letters that stand for a character after a backslash. -/
def shortEscapes : List (Char × Char) :=
  [('"', '"'), ('\\', '\\'), ('/', '/'), ('b', '\x08'), ('f', '\x0c'), ('n', '\n'), ('r', '\r'),
    ('t', '\t')]

/-- Four hexadecimal digits of a number. -/
def IsCode (digits : Text) (code : Nat) : Prop :=
  digits.length = 4 ∧ Text.readDigits? 16 digits = some code

/-- What can stand for a character in a string: the character itself, a short escape, its number, or
the two halves of a number with more than four digits. -/
inductive SpellsChar (c : Char) : Text → Prop
  | plain : 0x20 ≤ c.toNat → c ≠ '"' → c ≠ '\\' → SpellsChar c [c]
  | short {letter : Char} : (letter, c) ∈ shortEscapes → SpellsChar c ['\\', letter]
  | code {digits : Text} : IsCode digits c.toNat → SpellsChar c ('\\' :: 'u' :: digits)
  | halves {digits digits' : Text} {high low : Nat} : IsCode digits high → IsCode digits' low →
      isHighHalf high → isLowHalf low →
      c.toNat = 0x10000 + (high - 0xd800) * 0x400 + (low - 0xdc00) →
        SpellsChar c ('\\' :: 'u' :: digits ++ '\\' :: 'u' :: digits')

/-- The characters of a text, one after the other. -/
inductive SpellsChars : Text → Text → Prop
  | nil : SpellsChars [] []
  | cons {c : Char} {text piece pieces : Text} : SpellsChar c piece → SpellsChars text pieces →
      SpellsChars (c :: text) (piece ++ pieces)

/-- A text between quotes. -/
inductive SpellsText (text : Text) : Text → Prop
  | quoted {pieces : Text} : SpellsChars text pieces → SpellsText text ('"' :: pieces ++ ['"'])

/-- Parts with commas between them and white space around each. -/
inductive Separated {α : Type} (spells : α → Text → Prop) : List α → Text → Prop
  | nil {blanks : Text} : AreBlank blanks → Separated spells [] blanks
  | last {a : α} {before piece after : Text} : AreBlank before → spells a piece → AreBlank after →
      Separated spells [a] (before ++ piece ++ after)
  | cons {a b : α} {rest : List α} {before piece after pieces : Text} : AreBlank before →
      spells a piece → AreBlank after → Separated spells (b :: rest) pieces →
        Separated spells (a :: b :: rest) (before ++ piece ++ after ++ ',' :: pieces)

/-- A member of a record: its name, a colon and its value. -/
inductive SpellsMember (spells : Value → Text → Prop) : Text × Value → Text → Prop
  | named {name : Text} {value : Value} {front before after piece : Text} : SpellsText name front →
      AreBlank before → AreBlank after → spells value piece →
        SpellsMember spells (name, value) (front ++ before ++ ':' :: after ++ piece)

/-- The text is JSON for the value. -/
inductive Spells : Value → Text → Prop
  | null : Spells .null "null"
  | true : Spells (.bool true) "true"
  | false : Spells (.bool false) "false"
  | number {digits : Text} : IsNumber digits → Spells (.number digits) digits
  | string {text piece : Text} : SpellsText text piece → Spells (.string text) piece
  | list {items : List Value} {pieces : Text} : Separated Spells items pieces →
      Spells (.list items) ('[' :: pieces ++ [']'])
  | record {members : List (Text × Value)} {pieces : Text} :
      Separated (SpellsMember Spells) members pieces →
        Spells (.record members) ('{' :: pieces ++ ['}'])

end Json

/-- The value is one that JSON has. -/
def Value.HasSpelling (value : Value) : Prop :=
  ∃ text, Json.Spells value text

namespace Json

variable {α : Type} {spells : α → Text → Prop} {parts : List α} {pieces : Text}

theorem Separated.exists_piece (h : Separated spells parts pieces) :
    ∀ a ∈ parts, ∃ piece, spells a piece := by
  induction h with
  | nil _ => exact List.forall_mem_nil _
  | last _ ha _ => exact List.forall_mem_singleton.mpr ⟨_, ha⟩
  | cons _ ha _ _ ih => exact List.forall_mem_cons.mpr ⟨⟨_, ha⟩, ih⟩

end Json

namespace Value

variable {value : Value} {items : List Value} {members : List (Text × Value)}

theorem HasSpelling.of_mem_list (h : (list items).HasSpelling) :
    ∀ item ∈ items, item.HasSpelling := by
  obtain ⟨text, hspells⟩ := h
  cases hspells with
  | list hitems => exact hitems.exists_piece

theorem HasSpelling.of_mem_record (h : (record members).HasSpelling) :
    ∀ member ∈ members, member.2.HasSpelling := by
  obtain ⟨text, hspells⟩ := h
  intro member hmember
  cases hspells with
  | record hmembers =>
      obtain ⟨_, hspelled⟩ := hmembers.exists_piece member hmember
      cases hspelled with
      | named _ _ _ hvalue => exact ⟨_, hvalue⟩

theorem HasSpelling.ne_misnamed (h : value.HasSpelling) (inner : Value) :
    value ≠ .misnamed inner := by
  rintro rfl
  obtain ⟨_, hspells⟩ := h
  cases hspells

@[elab_as_elim]
theorem HasSpelling.induct {motive : Value → Prop} (null : motive .null)
    (bool : ∀ b, motive (.bool b)) (number : ∀ digits, Json.IsNumber digits → motive (.number digits))
    (string : ∀ text, motive (.string text))
    (list : ∀ items, (∀ item ∈ items, motive item) → motive (.list items))
    (record : ∀ members, (∀ member ∈ members, motive member.2) → motive (.record members)) :
    ∀ {value : Value}, value.HasSpelling → motive value
  | .null, _ => null
  | .bool b, _ => bool b
  | .number digits, ⟨_, .number hdigits⟩ => number digits hdigits
  | .string text, _ => string text
  | .list items, h => list items fun item hitem =>
      induct null bool number string list record (h.of_mem_list item hitem)
  | .record members, h => record members fun member hmember =>
      induct null bool number string list record (h.of_mem_record member hmember)
  | .misnamed inner, h => absurd rfl (h.ne_misnamed inner)
termination_by value => sizeOf value
decreasing_by
  · have hlt := List.sizeOf_lt_of_mem hitem
    simp only [Value.list.sizeOf_spec]
    omega
  · have hlt := List.sizeOf_lt_of_mem hmember
    have hmember : sizeOf member = 1 + sizeOf member.1 + sizeOf member.2 := rfl
    simp only [Value.record.sizeOf_spec]
    omega

theorem areWhole_iff : areWhole items ↔ ∀ item ∈ items, item.isWhole := by
  induction items with
  | nil => simp [areWhole]
  | cons item rest ih => simp [areWhole, ih]

theorem haveWhole_iff : haveWhole members ↔ ∀ member ∈ members, member.2.isWhole := by
  induction members with
  | nil => simp [haveWhole]
  | cons member rest ih => simp [haveWhole, ih]

theorem HasSpelling.isWhole (h : value.HasSpelling) : value.isWhole := by
  refine h.induct rfl (fun _ => rfl) (fun _ _ => rfl) (fun _ => rfl) ?list ?record
  case list => exact fun items ih => areWhole_iff.mpr ih
  case record => exact fun members ih => haveWhole_iff.mpr ih

end Value

end TemplateSuite
