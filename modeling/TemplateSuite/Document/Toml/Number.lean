import TemplateSuite.Document.Value

namespace TemplateSuite

namespace Toml

/-- Continue reading digits of a base, with single underscores between them. -/
def readMoreDigits (isDigit : Char → Bool) : Text → Option (Text × Text)
  | '_' :: c :: rest =>
    if isDigit c then (readMoreDigits isDigit rest).map fun (more, rest) => (c :: more, rest)
    else none
  | c :: rest =>
    if isDigit c then (readMoreDigits isDigit rest).map fun (more, rest) => (c :: more, rest)
    else if c = '_' then none
    else some ([], c :: rest)
  | [] => some ([], [])

/-- A run of digits of a base, with single underscores between them. -/
def readDigitRun? (isDigit : Char → Bool) : Text → Option (Text × Text)
  | c :: rest =>
    if isDigit c then (readMoreDigits isDigit rest).map fun (more, rest) => (c :: more, rest)
    else none
  | [] => none

/-- A digit of a base up to sixteen. -/
def isDigitOf (base : Nat) (c : Char) : Bool :=
  (Text.digitValue? c).any (· < base)

/-- An optional sign in front; the flag says whether it is a minus. -/
def spanSign : Text → Bool × Text
  | '+' :: rest => (false, rest)
  | '-' :: rest => (true, rest)
  | text => (false, text)

/-- The digits of a decimal integer: no leading zeros. -/
def readWhole? (text : Text) : Option (Text × Text) :=
  match text with
  | '0' :: rest => some (['0'], rest)
  | _ => readDigitRun? (isDigitOf 10) text

/-- An integer, which must fit into 64 bits. -/
def integerValue? (negative : Bool) (magnitude : Nat) : Option Value :=
  let bound := Nat.pow 2 63
  if negative then
    if magnitude ≤ bound then some (.number (Text.signedDecimal (-(magnitude : Int)))) else none
  else if magnitude < bound then some (.ofNat magnitude) else none

/-- An integer in a base that is named in front. -/
def readBased? (base : Nat) (text : Text) : Option (Value × Text) := do
  let (digits, rest) ← readDigitRun? (isDigitOf base) text
  let value ← integerValue? false (← Text.readDigits? base digits)
  return (value, rest)

def readInteger? (text : Text) : Option (Value × Text) :=
  match text with
  | '0' :: 'x' :: rest => readBased? 16 rest
  | '0' :: 'o' :: rest => readBased? 8 rest
  | '0' :: 'b' :: rest => readBased? 2 rest
  | _ => do
    let (negative, rest) := spanSign text
    let (digits, rest) ← readWhole? rest
    let value ← integerValue? negative (← Text.readDecimal? digits)
    return (value, rest)

/-- The digits after the point of a number; there may be no point. -/
def readFraction? : Text → Option (Text × Text)
  | '.' :: rest => readDigitRun? (isDigitOf 10) rest
  | text => some ([], text)

/-- The exponent of a number; without one it is zero. -/
def readExponent? (text : Text) : Option (Int × Text) :=
  match text with
  | [] => some (0, [])
  | e :: rest =>
    if e = 'e' ∨ e = 'E' then do
      let (negative, rest) := spanSign rest
      let (digits, rest) ← readDigitRun? (isDigitOf 10) rest
      let magnitude : Int := ← Text.readDecimal? digits
      return (if negative then -magnitude else magnitude, rest)
    else some (0, text)

/-- The magnitude from which on a number is rounded to infinity rather than to a float of 64 bits:
the middle between the largest float and the power of two that would be the next. -/
def infinityBound : Nat :=
  Nat.pow 2 1024 - Nat.pow 2 970

/-- The number of decimal digits of `infinityBound`. -/
def infinityDigits : Nat := 309

/-- The number with the given digits, of which the exponent moves the point to the right, is rounded
to infinity. -/
def isInfinite (digits : Text) (exponent : Int) : Bool :=
  let digits := digits.dropWhile (· == '0')
  let whole := digits.length + exponent
  -- the value is compared only where it has as many digits before the point as the bound
  !digits.isEmpty && infinityDigits ≤ whole &&
    (infinityDigits < whole ||
      infinityBound * Nat.pow 10 (-exponent).toNat ≤
        (Text.readDecimal? digits).getD 0 * Nat.pow 10 exponent.toNat)

/-- A number goes on with a fraction or an exponent. -/
def beginsTail (text : Text) : Bool :=
  text.head?.any fun c => c == '.' || c == 'e' || c == 'E'

/-- A float: a number with a fraction, an exponent or both. -/
def readFloat? (text : Text) : Option (Value × Text) := do
  let (negative, unsigned) := spanSign text
  let rest ←
    match Text.after? "inf" unsigned, Text.after? "nan" unsigned with
    | some rest, _ => some rest
    | _, some rest => some rest
    | none, none => do
      let (whole, rest) ← readWhole? unsigned
      guard (beginsTail rest)
      let (fraction, rest) ← readFraction? rest
      let (exponent, rest) ← readExponent? rest
      -- only a number with a minus sign may be too large for a float
      guard (negative || !isInfinite (whole ++ fraction) (exponent - fraction.length))
      pure rest
  return (.number (text.take (text.length - rest.length)), rest)

end Toml

end TemplateSuite
