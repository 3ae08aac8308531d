import TemplateSuite.FileSystem.Basic
import TemplateSuite.Path.Basic

/-!
Following paths. A path is walked name by name from the root or the working directory; symbolic
links on the way are replaced by their targets, and one at the end if the caller asks for it.
-/

namespace TemplateSuite

/-- Where a walk ended: at something, or at a free name in a directory. -/
inductive Spot where
  | present (place : Location) (entry : Entry)
  | vacant (place : Location)
  deriving DecidableEq, Repr, Inhabited

namespace FileSystem

def maxNameBytes : Nat := 255

def maxPathBytes : Nat := 4095

/-- The number of symbolic links one walk may follow. -/
def maxLinks : Nat := 40

/-- The steps of a path. A slash at the end asks for a directory, as a final `.` does. -/
def steps (path : Text) : List Text :=
  (path.splitOn '/').filter (· ≠ []) ++ if Path.endsInSlash path then [['.']] else []

/-- Where a path that stands in the given directory starts. -/
def startOf (here : Location) (path : Text) : Location :=
  if Path.isAbsolute path then [] else here

/-- How a path is walked. -/
structure WalkMode where
  /-- A link at the end is followed too. -/
  followLast : Bool
  /-- Each place on the way is looked up by its absolute path, which must not be too long. -/
  limitPlaces : Bool := false
  deriving DecidableEq, Repr, Inhabited

/-- Walk the given steps from the directory `here`, following at most `links` links. -/
def walk (fs : FileSystem) (mode : WalkMode) (links : Nat) (here : Location) (path : List Text) :
    Except FileError Spot :=
  match path with
  | [] => .ok (.present here .directory)
  | step :: rest =>
    if step = ['.'] then walk fs mode links here rest
    else if step = ['.', '.'] then walk fs mode links here.dropLast rest
    else if maxNameBytes < Text.byteCount step then .error .nameTooLong
    else if mode.limitPlaces && maxPathBytes < Text.byteCount (here ++ [step]).toPath then
      .error .nameTooLong
    else
      match fs.entryAt (here ++ [step]) with
      | none => if rest = [] then .ok (.vacant (here ++ [step])) else .error .notFound
      | some .directory => walk fs mode links (here ++ [step]) rest
      | some (.file content executable) =>
        if rest = [] then .ok (.present (here ++ [step]) (.file content executable))
        else .error .notDirectory
      | some (.link target) =>
        if rest = [] ∧ mode.followLast = false then .ok (.present (here ++ [step]) (.link target))
        else
          match links with
          | 0 => .error .tooManyLinks
          | fewer + 1 => walk fs mode fewer (startOf here target) (steps target ++ rest)
termination_by (links, path.length)

/-- A path that can be taken apart: not empty and without NUL. -/
def checkText (path : Text) : Except FileError Unit :=
  if path.contains '\x00' then .error .nulInPath
  else if path = [] then .error .notFound
  else .ok ()

/-- A path the system accepts: not empty, not too long and without NUL. -/
def checkPath (path : Text) : Except FileError Unit := do
  checkText path
  if maxPathBytes < Text.byteCount path then throw .nameTooLong

/-- Walk a path from where it starts. -/
def walkFrom (fs : FileSystem) (mode : WalkMode) (path : Text) (steps : List Text) :
    Except FileError Spot :=
  fs.walk mode maxLinks (startOf fs.workingDirectory path) steps

/-- Where a path leads. -/
def find (fs : FileSystem) (followLast : Bool) (path : Text) : Except FileError Spot := do
  checkPath path
  fs.walkFrom { followLast } path (steps path)

/-- The location and the entry that a path leads to. -/
def status (fs : FileSystem) (followLast : Bool) (path : Text) :
    Except FileError (Location × Entry) := do
  match ← fs.find followLast path with
  | .present place entry => return (place, entry)
  | .vacant _ => throw .notFound

/-- The absolute path, free of links, that a path stands for. -/
def canonicalPath (fs : FileSystem) (path : Text) : Except FileError Text := do
  -- the path may be longer than the system accepts, but the places on the way may not
  checkText path
  match ← fs.walkFrom { followLast := true, limitPlaces := true } path (steps path) with
  | .present place _ => return place.toPath
  | .vacant _ => throw .notFound

def readText (fs : FileSystem) (path : Text) : Except FileError Text := do
  match (← fs.status true path).2 with
  | .file (.text text) _ => return text
  | .file (.bytes _) _ => throw .notText
  | _ => throw .isDirectory

def isFile (fs : FileSystem) (path : Text) : Bool :=
  match fs.status true path with
  | .ok (_, entry) => entry.isFile
  | .error _ => false

def isDirectory (fs : FileSystem) (path : Text) : Bool :=
  match fs.status true path with
  | .ok (_, entry) => entry.isDirectory
  | .error _ => false

/-- The path leads to a regular file that may be executed. -/
def isExecutable (fs : FileSystem) (path : Text) : Bool :=
  match fs.status true path with
  | .ok (_, .file _ executable) => executable
  | _ => false

end FileSystem

end TemplateSuite
