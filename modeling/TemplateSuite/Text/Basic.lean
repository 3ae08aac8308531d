/-!
Texts as lists of characters, and the few operations every part of the library shares: cutting a
known beginning or ending off, and writing and reading numbers.

A list has no hidden byte positions, so each scanner of the library is a recursion on its text and
returns the part that is left.
-/

namespace TemplateSuite

/-- A text, character by character. -/
abbrev Text := List Char

instance : Coe String Text := ⟨String.toList⟩

namespace Text

/-- What follows `opening`, if the text begins with it. -/
def after? (opening text : Text) : Option Text :=
  if opening.isPrefixOf text then some (text.drop opening.length) else none

/-- What precedes `ending`, if the text ends with it. -/
def before? (ending text : Text) : Option Text :=
  if ending.isSuffixOf text then some (text.take (text.length - ending.length)) else none

/-- The first occurrence of `c` splits the text into what precedes and what follows it. -/
def splitAt? (c : Char) : Text → Option (Text × Text)
  | [] => none
  | d :: rest =>
    if d = c then some ([], rest)
    else (splitAt? c rest).map fun (before, after) => (d :: before, after)

theorem length_lt_of_splitAt? {c : Char} {text before after : Text}
    (h : splitAt? c text = some (before, after)) : after.length < text.length := by
  induction text generalizing before after with
  | nil => simp [splitAt?] at h
  | cons d rest ih =>
    unfold splitAt? at h
    split at h
    · simp only [Option.some.injEq, Prod.mk.injEq] at h
      simp [← h.2]
    · obtain ⟨⟨b, a⟩, hfound, hpair⟩ := Option.map_eq_some_iff.1 h
      have := ih hfound
      simp only [Prod.mk.injEq] at hpair
      simp only [← hpair.2, List.length_cons]
      omega

/-- The number of bytes the text takes in UTF-8. -/
def byteCount : Text → Nat
  | [] => 0
  | c :: rest => c.utf8Size + byteCount rest

/-- A number in decimal digits, without leading zeros. -/
def decimal (n : Nat) : Text :=
  Nat.toDigits 10 n

/-- An integer in decimal digits, with a minus sign if it is negative. -/
def signedDecimal : Int → Text
  | .ofNat n => decimal n
  | .negSucc n => '-' :: decimal (n + 1)

/-- The value of one digit of a base up to sixteen. -/
def digitValue? (c : Char) : Option Nat :=
  if '0' ≤ c ∧ c ≤ '9' then some (c.toNat - '0'.toNat)
  else if 'a' ≤ c ∧ c ≤ 'f' then some (c.toNat - 'a'.toNat + 10)
  else if 'A' ≤ c ∧ c ≤ 'F' then some (c.toNat - 'A'.toNat + 10)
  else none

/-- Continue reading digits of `base` after a number read so far. -/
def readDigitsFrom (base : Nat) : Nat → Text → Option Nat
  | value, [] => some value
  | value, c :: rest =>
    match digitValue? c with
    | some digit => if digit < base then readDigitsFrom base (value * base + digit) rest else none
    | none => none

/-- The number that a non-empty run of digits of `base` denotes; leading zeros are allowed. -/
def readDigits? (base : Nat) (text : Text) : Option Nat :=
  if text = [] then none else readDigitsFrom base 0 text

/-- The number that a non-empty run of ASCII decimal digits denotes. -/
def readDecimal? (text : Text) : Option Nat :=
  readDigits? 10 text

/-- A capital ASCII letter for a small one, every other character as it is. -/
def upper (text : Text) : Text :=
  text.map Char.toUpper

/-- A small ASCII letter for a capital one, every other character as it is. -/
def lower (text : Text) : Text :=
  text.map Char.toLower

end Text

end TemplateSuite
