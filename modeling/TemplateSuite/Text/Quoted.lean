import TemplateSuite.Text.Invisible

namespace TemplateSuite

namespace Text

def hexadecimal (n : Nat) : Text :=
  Nat.toDigits 16 n

/-- A character as it stands between quotes. -/
def quoteChar (c : Char) : Text :=
  if c = '"' ∨ c = '\\' then ['\\', c]
  else if c = '\x00' then ['\\', '0']
  else if c = '\t' then ['\\', 't']
  else if c = '\n' then ['\\', 'n']
  else if c = '\r' then ['\\', 'r']
  else if isInvisible c then '\\' :: 'u' :: '\x7b' :: hexadecimal c.toNat ++ ['\x7d']
  else [c]

/-- The text between double quotes. -/
def quoted (text : Text) : Text :=
  '"' :: text.flatMap quoteChar ++ ['"']

end Text

end TemplateSuite
