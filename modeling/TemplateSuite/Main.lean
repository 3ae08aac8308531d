import TemplateSuite.CommandLine.Run

/-!
The program. It reads the files a command may need into a file system value, runs the command on
that value, and carries the changes over to the disk.

Files are seen below the working directory and below the directories that arguments name; of the
search path only the names of the programs are read, and each file counts as executable.
-/

namespace TemplateSuite

namespace Main

/-- How deep directories are read. -/
def maxDepth : Nat := 64

/-- The names on the way to an absolute path. -/
def locationOf (path : String) : Location :=
  (path.toList.splitOn '/').filter (· ≠ [])

/-- Read what is at a location, with everything below it to the given depth. Only the names of files
are of interest where `namesOnly` is set. -/
partial def load (namesOnly : Bool) (depth : Nat) (fs : FileSystem) (place : Location) :
    IO FileSystem := do
  let path := (← IO.currentDir) / String.ofList place.toPath
  match ← path.symlinkMetadata.toBaseIO with
  | .error _ => return fs
  | .ok metadata =>
    match metadata.type with
    | .dir =>
      let fs := if place = [] then fs else fs.put place .directory
      if depth = 0 then return fs
      let entries ← path.readDir
      entries.foldlM
        (fun fs entry => load namesOnly (depth - 1) fs (place ++ [entry.fileName.toList])) fs
    | .file =>
      let bytes ← if namesOnly then pure [] else ByteArray.toList <$> IO.FS.readBinFile path
      return fs.put place (.file (Content.ofBytes bytes) true)
    | .symlink =>
      match ← (IO.FS.realPath path).toBaseIO with
      | .ok target => return fs.put place (.link target.toString.toList)
      | .error _ => return fs.put place (.link place.toPath)
    | .other => return fs

/-- The directory of an argument that leads out of the working directory. -/
def outsideDirectory? (arg : Text) : Option Text :=
  let path := (Text.after? "=" (arg.dropWhile (· ≠ '='))).getD arg
  if Path.isAbsolute path || (Path.components path).contains .parent then
    Path.parent? (path.takeWhile fun c => c != '*' && c != '?' && c != '[')
  else none

/-- Read what is at a path and the directories on the way to it, under the name given and under the
name without links. -/
def reach (namesOnly : Bool) (depth : Nat) (fs : FileSystem) (path : String) : IO FileSystem := do
  let real ← (IO.FS.realPath path).toBaseIO
  let literal := if (Path.components path.toList).contains .parent then [] else [path]
  let names := literal ++ match real with
    | .ok real => [real.toString]
    | .error _ => []
  (names.map locationOf).foldlM
    (fun fs place => do
      let fs ← (List.range place.length).foldlM
        (fun fs n => load true 0 fs (place.take n)) fs
      load namesOnly depth fs place)
    fs

/-- The files that a command with these arguments may need. -/
def snapshot (searchPath : Toolchain.SearchPath) (args : List Text) : IO FileSystem := do
  let here := (← IO.currentDir).toString
  let empty : FileSystem := { root := [], workingDirectory := locationOf here }
  let programs := searchPath.directories.filter Path.isAbsolute
  let fs ← programs.foldlM (fun fs directory => reach true 1 fs (String.ofList directory)) empty
  let outside := (args.filterMap outsideDirectory?).map fun directory =>
    Path.join here.toList directory
  let fs ← outside.foldlM (fun fs directory => reach false maxDepth fs (String.ofList directory)) fs
  reach false maxDepth fs here

/-- Carry one removal over to the disk. -/
def removeEntry (place : Location) (entry : Entry) : IO Unit := do
  let path := String.ofList place.toPath
  if entry.isDirectory then IO.FS.removeDir path else IO.FS.removeFile path

/-- Carry one new entry over to the disk. -/
def storeEntry (place : Location) : Entry → IO Unit
  | .directory => IO.FS.createDir (String.ofList place.toPath)
  | .file (.text text) _ => IO.FS.writeFile (String.ofList place.toPath) (String.ofList text)
  | _ => pure ()

/-- An entry has to be removed before the new one can be stored in its place. -/
def mustGo (old : Entry) : Option Entry → Bool
  | none => true
  | some new => old.isDirectory != new.isDirectory || (old.isLink && old != new)

/-- Carry the difference between two file systems over to the disk. -/
def store (before after : FileSystem) : IO Unit := do
  -- what is gone is removed from the bottom up, and what is new is stored from the top down
  for (place, entry) in before.entries.reverse do
    if mustGo entry (after.entryAt place) then removeEntry place entry
  for (place, entry) in after.entries do
    if before.entryAt place != some entry then storeEntry place entry

def run (args : List Text) : IO UInt32 := do
  let searchPath : Toolchain.SearchPath := {
    text := ((← IO.getEnv "PATH").getD "").toList
    home := ((← IO.getEnv "HOME").getD "").toList }
  let environment := (← IO.getEnv "TESTGEN_CONFIG").map String.toList
  let files ← snapshot searchPath (args ++ environment.toList)
  let (outcome, world) := CommandLine.execute environment searchPath args { files }
  store files world.files
  IO.print (String.ofList outcome.output)
  if (CommandLine.read environment args).toOption.any (·.verbose) then
    for event in world.events.filter (·.level = .info) do
      IO.eprintln (String.ofList event.logLine)
  if let some error := outcome.error then IO.eprint (String.ofList error)
  return UInt32.ofNat outcome.code

end Main

end TemplateSuite

def main (args : List String) : IO UInt32 :=
  TemplateSuite.Main.run (args.map String.toList)
