import TemplateSuite.Text.Basic

namespace TemplateSuite

namespace Text

/-- The characters with the Unicode property `White_Space`. -/
def isBlank (c : Char) : Bool :=
  let n := c.toNat
  (0x09 ≤ n && n ≤ 0x0d) || n == 0x20 || n == 0x85 || n == 0xa0 || n == 0x1680 ||
    (0x2000 ≤ n && n ≤ 0x200a) || n == 0x2028 || n == 0x2029 || n == 0x202f || n == 0x205f ||
    n == 0x3000

/-- Drop white space in front. -/
def trimLeft (text : Text) : Text :=
  text.dropWhile isBlank

/-- Drop white space at the end: a blank character stays only if something is kept after it. -/
def trimRight : Text → Text
  | [] => []
  | c :: rest =>
    match trimRight rest with
    | [] => if isBlank c then [] else [c]
    | kept => c :: kept

/-- Drop white space on both sides. -/
def trim (text : Text) : Text :=
  trimRight (trimLeft text)

/-- The text has no character but white space. -/
def allBlank (text : Text) : Bool :=
  text.all isBlank

/-- The first maximal run of characters that are not white space, if there is one. -/
def firstWord? (text : Text) : Option Text :=
  match (trimLeft text).takeWhile (!isBlank ·) with
  | [] => none
  | word => some word

end Text

end TemplateSuite
