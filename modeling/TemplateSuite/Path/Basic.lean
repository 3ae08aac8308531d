import TemplateSuite.Text.Basic

/-!
Path texts. A path is the text a user wrote; slashes separate its components. Repeated slashes, a
slash at the end and `.` components other than a leading one say nothing and are not components,
but joining keeps the text of both parts as it is.
-/

namespace TemplateSuite

namespace Path

inductive Component where
  /-- The slash an absolute path begins with. -/
  | root
  /-- A leading `.`. -/
  | current
  /-- `..`. -/
  | parent
  /-- A name. -/
  | name (name : Text)
  deriving DecidableEq, Repr, Inhabited

/-- The path begins with a slash. -/
def isAbsolute (path : Text) : Bool :=
  path.head? == some '/'

def endsInSlash (path : Text) : Bool :=
  path.getLast? == some '/'

/-- A piece between slashes that is no component when something precedes it. -/
def isIdle (piece : Text) : Bool :=
  piece == [] || piece == ['.']

/-- The component for a piece that is not idle. -/
def Component.ofPiece (piece : Text) : Component :=
  if piece = ['.', '.'] then .parent else .name piece

/-- The components for the first piece: an empty one is the root or an empty path. -/
def leadingComponents (path first : Text) : List Component :=
  if first = [] then (if path = [] then [] else [.root])
  else if first = ['.'] then [.current]
  else [.ofPiece first]

/-- The components of a path in order. -/
def components (path : Text) : List Component :=
  match path.splitOn '/' with
  | [] => []
  | first :: rest =>
    leadingComponents path first ++ (rest.filter (!isIdle ·)).map Component.ofPiece

def Component.text : Component → Text
  | .root => ['/']
  | .current => ['.']
  | .parent => ['.', '.']
  | .name text => text

/-- The path to `part` as seen from `base`; an absolute part stands for itself. -/
def join (base part : Text) : Text :=
  if isAbsolute part || base == [] then part
  else if endsInSlash base then base ++ part
  else base ++ '/' :: part

/-- The path with the home directory in place of a leading `~`. -/
def expandHome (home path : Text) : Text :=
  match components path with
  | .name ['~'] :: rest => (rest.map Component.text).foldl join home
  | _ => path

/-- The text of the first piece and the pieces after it, given last piece first and without idle
pieces at the end. -/
def ofPieces (first : Text) (rest : List Text) : Text :=
  match rest.dropWhile isIdle with
  | [] => if first = [] then ['/'] else first
  | kept => ['/'].intercalate (first :: kept.reverse)

/-- The ancestors of a path whose pieces after the first are given last piece first. -/
def ancestorsOfPieces (first : Text) : List Text → List Text
  | [] => if first = [] then [] else [[]]
  | piece :: before =>
    if isIdle piece then ancestorsOfPieces first before
    else ofPieces first before :: ancestorsOfPieces first before

/-- The paths that remain when components are taken off the end one by one. Those of a relative
path end with the empty path, those of an absolute path with the root. -/
def ancestors (path : Text) : List Text :=
  match path.splitOn '/' with
  | [] => []
  | first :: rest => ancestorsOfPieces first rest.reverse

/-- The path without its last component. -/
def parent? (path : Text) : Option Text :=
  (ancestors path).head?

/-- The last component, if it is a name. -/
def fileName? (path : Text) : Option Text :=
  match (components path).getLast? with
  | some (.name name) => some name
  | _ => none

/-- What follows the last dot of a file name, if anything precedes that dot. -/
def extensionOfName? (name : Text) : Option Text :=
  match Text.splitAt? '.' name.reverse with
  | some (_, []) => none
  | some (reversed, _) => some reversed.reverse
  | none => none

def extension? (path : Text) : Option Text :=
  (fileName? path).bind extensionOfName?

end Path

end TemplateSuite
