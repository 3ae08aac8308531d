import TemplateSuite.Template.Section

namespace TemplateSuite

namespace Comment

def tag : Text := "comment"

/-- The lines outside comment sections, while `depth` of them are open. -/
def keep : (depth : Nat) → List Text → List Text
  | _, [] => []
  | depth, line :: rest =>
    match Line.classify line, depth with
    | .opening found _ closed, depth =>
      if found = tag then keep (if closed then depth else depth + 1) rest
      else if depth = 0 then line :: keep depth rest
      else keep depth rest
    -- a closing line counts only if a comment is open
    | .closing _, 0 => line :: keep 0 rest
    | .closing found, outer + 1 => keep (if found = tag then outer else outer + 1) rest
    | .text, 0 => line :: keep 0 rest
    | .text, depth => keep depth rest

end Comment

/-- The text without its comment sections. -/
def stripComments (text : Text) : Text :=
  Text.unlines (Comment.keep 0 (Text.lines text))

end TemplateSuite
