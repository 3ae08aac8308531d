import TemplateSuite.Path.Basic

namespace TemplateSuite

/-- Why a path may leave the directory it is joined to, or names nothing in it. -/
inductive UnsafePath where
  /-- The path is absolute. -/
  | absolute (path : Text)
  /-- The path has a `..` component. -/
  | climbs (path : Text)
  /-- The path has no name. -/
  | nameless (path : Text)
  deriving DecidableEq, Repr, Inhabited

namespace UnsafePath

def message : UnsafePath → Text
  | .absolute path => "Path cannot be absolute or rooted: '" ++ path ++ "'"
  | .climbs path => "Path cannot contain parent directory (..): '" ++ path ++ "'"
  | .nameless path => "Path must name a file or directory: '" ++ path ++ "'"

end UnsafePath

namespace Path

/-- The path has a root, so that joining it to a directory leaves the directory. -/
def isRooted (path : Text) : Bool :=
  (components path).contains .root

def Component.isName : Component → Bool
  | .name _ => true
  | _ => false

/-- Check that a path stays below the directory it is joined to. -/
def checkRelative (path : Text) : Except UnsafePath Unit :=
  if isRooted path then .error (.absolute path)
  else if (components path).contains .parent then .error (.climbs path)
  else if (components path).any Component.isName then .ok ()
  else .error (.nameless path)

end Path

end TemplateSuite
