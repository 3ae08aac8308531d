import TemplateSuite.FileSystem.Node

/-!
File systems as values. A file system is the tree below its root; `entryAt` is the view of it that
all operations are described by. What an operation does to the world is a change of this value, so
it can be compared before and after.
-/

namespace TemplateSuite

/-- Why an operation on the file system fails. -/
inductive FileError where
  | notFound
  | busy
  | exists
  | notDirectory
  | isDirectory
  | invalidArgument
  | nameTooLong
  | directoryNotEmpty
  | tooManyLinks
  /-- The content of a file is no text. -/
  | notText
  /-- A path has a NUL character. -/
  | nulInPath
  deriving DecidableEq, Repr, Inhabited

namespace FileError

/-- The text of a numbered error of the operating system. -/
def numbered (description : Text) (number : Nat) : Text :=
  description ++ " (os error " ++ Text.decimal number ++ ")"

def message : FileError → Text
  | .notFound => numbered "No such file or directory" 2
  | .busy => numbered "Device or resource busy" 16
  | .exists => numbered "File exists" 17
  | .notDirectory => numbered "Not a directory" 20
  | .isDirectory => numbered "Is a directory" 21
  | .invalidArgument => numbered "Invalid argument" 22
  | .nameTooLong => numbered "File name too long" 36
  | .directoryNotEmpty => numbered "Directory not empty" 39
  | .tooManyLinks => numbered "Too many levels of symbolic links" 40
  | .notText => "stream did not contain valid UTF-8"
  | .nulInPath => "file name contained an unexpected NUL byte"

end FileError

/-- The tree below the root and the directory that relative paths start from. -/
structure FileSystem where
  /-- What is in the root. -/
  root : List (Text × Node)
  workingDirectory : Location
  deriving Repr, Inhabited

namespace FileSystem

/-- The tree with its root. -/
def tree (fs : FileSystem) : Node :=
  .directory fs.root

/-- What is at a location. The root is always a directory. -/
def entryAt (fs : FileSystem) (place : Location) : Option Entry :=
  (fs.tree.at? place).map Node.entry

/-- Change what is at a location. -/
def change (fs : FileSystem) (f : Option Node → Option Node) (place : Location) : FileSystem :=
  { fs with root := (fs.tree.change f place).children }

/-- Put an entry at a location in a directory, in place of what is there. A directory keeps what it
holds. -/
def put (fs : FileSystem) (place : Location) (entry : Entry) : FileSystem :=
  fs.change (fun old => some (entry.toNode (old.elim [] Node.children))) place

/-- Take away what is strictly below a location. -/
def clearBelow (fs : FileSystem) (place : Location) : FileSystem :=
  fs.change (Option.map Node.cleared) place

/-- Take away what is at a location, with everything below it. The root stays. -/
def erase (fs : FileSystem) (place : Location) : FileSystem :=
  fs.change (fun _ => none) place

/-- Names in increasing order of their characters. -/
def sortNames (names : List Text) : List Text :=
  names.mergeSort fun a b => !decide (b < a)

/-- The names in a directory, in increasing order. -/
def namesIn (fs : FileSystem) (place : Location) : List Text :=
  sortNames ((fs.tree.at? place).elim [] (·.children.map Prod.fst))

/-- What is below the root, each directory before what it holds. -/
def entries (fs : FileSystem) : List (Location × Entry) :=
  Node.childEntries [] fs.root

theorem entryAt_root (fs : FileSystem) : fs.entryAt [] = some .directory := rfl

theorem tree_change (fs : FileSystem) (f : Option Node → Option Node) {place : Location}
    (h : place ≠ []) : (fs.change f place).tree = fs.tree.change f place :=
  Node.directory_children_change f fs.root h

theorem entryAt_change_of_not_prefix (fs : FileSystem) (f : Option Node → Option Node)
    {place other : Location} (h : ¬ place <+: other) :
    (fs.change f place).entryAt other = fs.entryAt other := by
  have hne : place ≠ [] := fun hnil => h (hnil ▸ List.nil_prefix)
  rw [entryAt, entryAt, tree_change fs f hne]
  exact Node.entry_at?_change_of_not_prefix f fs.tree h

theorem entryAt_put_of_not_prefix (fs : FileSystem) (entry : Entry) {place other : Location}
    (h : ¬ place <+: other) : (fs.put place entry).entryAt other = fs.entryAt other :=
  fs.entryAt_change_of_not_prefix _ h

theorem entryAt_erase_of_not_prefix (fs : FileSystem) {place other : Location}
    (h : ¬ place <+: other) : (fs.erase place).entryAt other = fs.entryAt other :=
  fs.entryAt_change_of_not_prefix _ h

theorem entryAt_clearBelow (fs : FileSystem) (place other : Location) :
    (fs.clearBelow place).entryAt other =
      if place.Encloses other then none else fs.entryAt other := by
  have htree : (fs.clearBelow place).tree = fs.tree.change (Option.map Node.cleared) place := by
    cases place with
    | nil => rfl
    | cons name rest => exact tree_change fs _ (by simp)
  rw [entryAt, entryAt, htree]
  exact Node.entry_at?_change_cleared place other fs.tree

theorem entryAt_eq_directory_iff (fs : FileSystem) (place : Location) :
    fs.entryAt place = some .directory ↔
      ∃ children, fs.tree.at? place = some (.directory children) := by
  refine Option.map_eq_some_iff.trans ⟨fun ⟨node, hnode, hentry⟩ => ?_, fun ⟨children, h⟩ => ?_⟩
  · obtain ⟨children, rfl⟩ := Node.exists_of_entry_eq_directory hentry
    exact ⟨children, hnode⟩
  · exact ⟨_, h, rfl⟩

theorem entryAt_put_self (fs : FileSystem) (above : Location) (name : Text) (entry : Entry)
    (h : fs.entryAt above = some .directory) :
    (fs.put (above ++ [name]) entry).entryAt (above ++ [name]) = some entry := by
  obtain ⟨children, hat⟩ := (entryAt_eq_directory_iff fs above).1 h
  have hat := Node.at?_change_append
    (fun old => some (entry.toNode (old.elim [] Node.children))) above name [] fs.tree hat
  rw [entryAt, put, tree_change fs _ (by simp)]
  exact (congrArg (Option.map Node.entry) hat).trans (congrArg some (Node.entry_toNode _ _))

theorem entryAt_erase_of_prefix (fs : FileSystem) {place other : Location} (hplace : place ≠ [])
    (h : place <+: other) : (fs.erase place).entryAt other = none := by
  rw [entryAt, erase, tree_change fs _ hplace]
  obtain ⟨below, rfl⟩ := h
  exact congrArg (Option.map Node.entry) (Node.at?_change_none below fs.tree hplace)

end FileSystem

end TemplateSuite
