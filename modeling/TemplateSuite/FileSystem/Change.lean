import TemplateSuite.FileSystem.Walk

namespace TemplateSuite

/-- An action on the file system; the file system it leaves is there after a failure too. -/
abbrev Change (α : Type) := ExceptT FileError (StateM FileSystem) α

namespace Change

/-- An observation of the file system. -/
def ofView (view : FileSystem → Except FileError α) : Change α :=
  fun fs => (view fs, fs)

/-- An update of the file system that cannot fail. -/
def update (f : FileSystem → FileSystem) : Change Unit :=
  fun fs => (.ok (), f fs)

/-- The error of an action as a value. -/
def attempt (action : Change α) : Change (Except FileError α) :=
  fun fs => let (result, after) := action fs; (.ok result, after)

/-- The path without the slashes at its end, except for one that is the whole path. -/
def dropEndSlashes (path : Text) : Text :=
  match path.reverse.dropWhile (· == '/') with
  | [] => path.take 1
  | kept => kept.reverse

/-- Make one directory. Nothing may be there, not even a link that leads nowhere. -/
def makeDirectory (path : Text) : Change Unit := do
  ofView fun _ => FileSystem.checkPath path
  match ← ofView (·.find false (dropEndSlashes path)) with
  | .present .. => throw .exists
  | .vacant place => update (·.put place .directory)

/-- Make the first of the given directories, of which each is followed by its ancestors. -/
def makeDirectoriesFrom : List Text → Change Unit
  | [] => throw .notFound
  | path :: above =>
    if path = [] then pure ()
    else do
      match ← attempt (makeDirectory path) with
      | .ok () => pure ()
      | .error .notFound =>
        -- the ancestors are made first
        makeDirectoriesFrom above
        match ← attempt (makeDirectory path) with
        | .ok () => pure ()
        | .error e => unless (← ofView (.ok <| ·.isDirectory path)) do throw e
      | .error e => unless (← ofView (.ok <| ·.isDirectory path)) do throw e

/-- Make a directory and those of its ancestors that are missing. -/
def makeDirectories (path : Text) : Change Unit :=
  makeDirectoriesFrom (path :: Path.ancestors path)

/-- Remove a file or a symbolic link. -/
def removeFile (path : Text) : Change Unit := do
  match ← ofView (·.status false path) with
  | (_, .directory) => throw .isDirectory
  | (place, _) => update (·.erase place)

/-- The directory in which the last step of a path is taken. -/
def directoryOf (path : Text) : Change Location :=
  ofView fun fs => do
    match ← fs.walkFrom { followLast := true } path
      (FileSystem.steps (dropEndSlashes path)).dropLast with
    | .present place .directory => return place
    | .present .. => throw .notDirectory
    | .vacant _ => throw .notFound

/-- Remove an empty directory. The path must end with the name of the directory itself: not with
`.` or `..`, and not with a link, even if a slash follows it. -/
def removeDirectory (path : Text) : Change Unit := do
  let above ← directoryOf path
  match (FileSystem.steps (dropEndSlashes path)).getLast? with
  | none => throw .notFound
  | some ['.'] => throw (if dropEndSlashes path = ['/'] then .busy else .invalidArgument)
  | some ['.', '.'] => throw .directoryNotEmpty
  | some name =>
    let place := above ++ [name]
    match ← ofView fun fs => .ok (fs.entryAt place, fs.namesIn place) with
    | (none, _) => throw .notFound
    | (some .directory, []) => update (·.erase place)
    | (some .directory, _) => throw .directoryNotEmpty
    | _ => throw .notDirectory

/-- Remove a directory and everything in it; of a link only the link itself. -/
def removeTree (path : Text) : Change Unit := do
  match ← ofView (·.status false path) with
  | (place, .link _) => update (·.erase place)
  | (_, .file ..) => throw .notDirectory
  | (place, .directory) =>
    update (·.clearBelow place)
    match ← attempt (removeDirectory path) with
    | .ok () => pure ()
    -- the path may lead through what has just been removed
    | .error .notFound => pure ()
    | .error e => throw e

/-- The directory a path with a slash at its end would be made in must exist, but no file can be
made under such a path. -/
def refuseSlash (path : Text) : Change Unit := do
  ofView fun _ => FileSystem.checkPath path
  let _ ← directoryOf path
  throw .isDirectory

/-- Give a file this content; a file that is not there is made. Where the path ends in a link the
file it stands for is written. -/
def writeFile (path : Text) (content : Text) : Change Unit := do
  if Path.endsInSlash path then refuseSlash path
  else
    match ← ofView (·.find true path) with
    | .present place (.file _ executable) =>
      update (·.put place (.file (.text content) executable))
    | .present .. => throw .isDirectory
    | .vacant place => update (·.put place (.file (.text content) false))

end Change

end TemplateSuite
