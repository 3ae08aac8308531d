import TemplateSuite.FileSystem.Walk
import TemplateSuite.Glob.Pattern

namespace TemplateSuite

namespace Glob

/-- Something is at the path, be it a link that leads nowhere. -/
def exists? (fs : FileSystem) (path : Text) : Bool :=
  (fs.status true path).isOk || (fs.status false path).isOk

/-- The path is the working directory, which does not show in the paths found. -/
def isCurrent (path : Text) : Bool :=
  Path.components path == [.current]

def childPath (directory name : Text) : Text :=
  if isCurrent directory then name else Path.join directory name

def namesAt (fs : FileSystem) (path : Text) : List Text :=
  match fs.status true path with
  | .ok (place, .directory) => fs.namesIn place
  | _ => []

def isSpecial (name : Text) : Bool :=
  name == ['.'] || name == ['.', '.']

/-- A path that has matched all components, unless a directory is asked for and it is none. -/
def found (fs : FileSystem) (needsDirectory : Bool) (path : Text) : List Text :=
  if !needsDirectory || fs.isDirectory path then [path] else []

/-- Go on from a path that has matched a component. -/
def advance (fs : FileSystem) (needsDirectory : Bool)
    (enter : List (List Token) → Text → List Text) (rest : List (List Token)) (path : Text) :
    List Text :=
  if rest = [] then found fs needsDirectory path else enter rest path

/-- Match the last name of a path against a component that is not recursive. -/
def matchName (fs : FileSystem) (needsDirectory : Bool)
    (enter : List (List Token) → Text → List Text) (component : List Token)
    (rest : List (List Token)) (path : Text) : List Text :=
  if isMatch component ((Path.fileName? path).getD []) then
    advance fs needsDirectory enter rest path
  else []

/-- Match a path in a directory against the components. -/
def visit (fs : FileSystem) (needsDirectory : Bool)
    (enter : List (List Token) → Text → List Text) (components : List (List Token)) (path : Text) :
    List Text :=
  match components with
  | [] => []
  | component :: rest =>
    if isRecursive component then
      let below := if fs.isDirectory path then enter (component :: rest) path else []
      -- any number of directories may be none
      match rest.dropWhile isRecursive with
      | [] => if fs.isDirectory path then path :: below else []
      | next :: rest => matchName fs needsDirectory enter next rest path ++ below
    else matchName fs needsDirectory enter component rest path

/-- The special names that a component with a leading dot matches, `..` first. -/
def specials (component : List Token) : List Text :=
  if component.head? = some (.char '.') then
    [['.', '.'], ['.']].filter (isMatch component)
  else []

/-- The paths below `path` that match the components. Each level of `room` allows one more component
or one more directory. -/
def search (fs : FileSystem) (needsDirectory : Bool) :
    (room : Nat) → List (List Token) → Text → List Text
  | 0, _, _ => []
  | _, [], _ => []
  | room + 1, component :: rest, path =>
    match literal? component with
    | some name =>
      let next := childPath path name
      if if isSpecial name then fs.isDirectory path else exists? fs next then
        advance fs needsDirectory (search fs needsDirectory room) rest next
      else []
    | none =>
      if fs.isDirectory path then
        (specials component).flatMap
          (fun name => advance fs needsDirectory (search fs needsDirectory room) rest
            (Path.join path name)) ++
        (namesAt fs path).flatMap fun name =>
          visit fs needsDirectory (search fs needsDirectory room) (component :: rest)
            (childPath path name)
      else []

/-- The components of a pattern without its root; a slash at the end begins no component. -/
def componentTexts (pattern : Text) : List Text :=
  match pattern.splitOn '/' with
  | [] => []
  | pieces => if pieces.getLast? = some [] then pieces.dropLast else pieces

/-- The paths that match a pattern. -/
def paths (fs : FileSystem) (pattern : Text) : Except PatternError (List Text) := do
  let _ ← tokens pattern
  let absolute := Path.isAbsolute pattern
  let rest := if absolute then pattern.tail else pattern
  let components ← (if rest = [] then [[]] else componentTexts rest).mapM tokens
  let scope : Text := if absolute then ['/'] else ['.']
  return search fs (Path.endsInSlash pattern) (FileSystem.maxPathBytes + components.length + 1)
    components scope

end Glob

end TemplateSuite
