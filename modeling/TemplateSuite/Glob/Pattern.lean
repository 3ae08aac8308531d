import TemplateSuite.Text.Basic

namespace TemplateSuite

namespace Glob

/-- What is wrong with a pattern, at the character of the given position. -/
inductive PatternFault where
  /-- More than two stars in a row. -/
  | tooManyStars
  /-- Two stars that are not a whole component. -/
  | misplacedStars
  /-- A bracket that begins no class. -/
  | badClass
  deriving DecidableEq, Repr, Inhabited

/-- A fault of a pattern and where it is. -/
structure PatternError where
  position : Nat
  fault : PatternFault
  deriving DecidableEq, Repr, Inhabited

namespace PatternError

def describe : PatternFault → Text
  | .tooManyStars => "wildcards are either regular `*` or recursive `**`"
  | .misplacedStars => "recursive wildcards must form a single path component"
  | .badClass => "invalid range pattern"

def message (e : PatternError) : Text :=
  "Pattern syntax error near position " ++ Text.decimal e.position ++ ": " ++ describe e.fault

end PatternError

/-- A part of a pattern. -/
inductive Token where
  | char (c : Char)
  /-- Any one character. -/
  | any
  /-- Any number of characters. -/
  | star
  /-- Any number of directories. -/
  | directories
  /-- One character in one of the ranges, or in none of them if `negated`. -/
  | range (negated : Bool) (ranges : List (Char × Char))
  deriving DecidableEq, Repr, Inhabited

/-- The ranges of a class; a character that begins no range is a range of its own. -/
def ranges : Text → List (Char × Char)
  | first :: '-' :: last :: rest => (first, last) :: ranges rest
  | c :: rest => (c, c) :: ranges rest
  | [] => []

/-- The class after an opening bracket, with the number of its characters and what follows it. Its
first character may be a closing bracket. -/
def readClass? : Text → Option (Token × Nat × Text)
  | '!' :: first :: rest =>
    (Text.splitAt? ']' rest).map fun (more, after) =>
      (.range true (ranges (first :: more)), more.length + 3, after)
  | ['!'] => none
  | first :: rest =>
    (Text.splitAt? ']' rest).map fun (more, after) =>
      (.range false (ranges (first :: more)), more.length + 2, after)
  | [] => none

theorem length_lt_of_readClass? {text : Text} {token : Token} {width : Nat} {after : Text}
    (h : readClass? text = some (token, width, after)) : after.length < text.length := by
  unfold readClass? at h
  split at h
  · obtain ⟨⟨b, a⟩, hfound, hpair⟩ := Option.map_eq_some_iff.1 h
    have := Text.length_lt_of_splitAt? hfound
    simp only [Prod.mk.injEq] at hpair
    simp only [← hpair.2.2, List.length_cons]
    omega
  · simp at h
  · obtain ⟨⟨b, a⟩, hfound, hpair⟩ := Option.map_eq_some_iff.1 h
    have := Text.length_lt_of_splitAt? hfound
    simp only [Prod.mk.injEq] at hpair
    simp only [← hpair.2.2, List.length_cons]
    omega
  · simp at h

/-- The tokens of a pattern from the given position on, which follows the given character. -/
def tokensFrom (position : Nat) (previous : Option Char) (pattern : Text) :
    Except PatternError (List Token) :=
  match pattern with
  | [] => .ok []
  | '?' :: rest => return .any :: (← tokensFrom (position + 1) (some '?') rest)
  | '*' :: '*' :: '*' :: _ => .error ⟨position + 2, .tooManyStars⟩
  | '*' :: '*' :: rest =>
    if previous.all (· == '/') then
      match rest with
      | [] => .ok [.directories]
      | c :: rest =>
        if c = '/' then return .directories :: (← tokensFrom (position + 3) (some '/') rest)
        else .error ⟨position + 2, .misplacedStars⟩
    else .error ⟨position - 1, .misplacedStars⟩
  | '*' :: rest => return .star :: (← tokensFrom (position + 1) (some '*') rest)
  | '[' :: rest =>
    match _h : readClass? rest with
    | some (token, width, after) =>
      return token :: (← tokensFrom (position + width + 1) (some ']') after)
    | none => .error ⟨position, .badClass⟩
  | c :: rest => return .char c :: (← tokensFrom (position + 1) (some c) rest)
termination_by pattern.length
decreasing_by
  · simp
  · simp only [List.length_cons]
    omega
  · simp
  · have := length_lt_of_readClass? (by assumption)
    simp only [List.length_cons]
    omega
  · simp

def tokens (pattern : Text) : Except PatternError (List Token) :=
  tokensFrom 0 none pattern

def inRanges (c : Char) (ranges : List (Char × Char)) : Bool :=
  ranges.any fun (first, last) => first ≤ c && c ≤ last

/-- A token that stands for one character stands for this one. -/
def Token.accepts (c : Char) : Token → Bool
  | .char d => c == d
  | .any => true
  | .range negated ranges => inRanges c ranges != negated
  | _ => false

/-- The token stands for texts of any length. -/
def Token.isElastic : Token → Bool
  | .star => true
  | .directories => true
  | _ => false

/-- Answers for the ends of a name, from the whole name to its empty end, extended by one token in
front. An elastic token may leave any shorter end to the other tokens, and any other token takes one
character. -/
def extendMatches (token : Token) : (name : Text) → (answers : List Bool) → List Bool
  | c :: name, answer :: answers =>
    let extended := extendMatches token name answers
    let matched :=
      if token.isElastic then answer || extended.headD false
      else token.accepts c && answers.headD false
    matched :: extended
  | [], [answer] => [token.isElastic && answer]
  | _, _ => []

/-- Which ends of a name the tokens match, from the whole name to its empty end. -/
def matchEnds (tokens : List Token) (name : Text) : List Bool :=
  tokens.foldr (extendMatches · name) (name.map (fun _ => false) ++ [true])

/-- The tokens match a whole name. -/
def isMatch (tokens : List Token) (name : Text) : Bool :=
  (matchEnds tokens name).headD false

/-- The only name that the tokens match, if they are all characters. -/
def literal? : List Token → Option Text
  | [] => some []
  | .char c :: rest => (literal? rest).map (c :: ·)
  | _ => none

/-- The component stands for any number of directories. -/
def isRecursive (component : List Token) : Bool :=
  component.contains .directories

end Glob

end TemplateSuite
