import TemplateSuite.FileSystem.Basic
import TemplateSuite.Text.Quoted

namespace TemplateSuite

/-- What can be done with a section. -/
inductive Handler where
  /-- Define or replace a macro. -/
  | definition
  /-- Recreate a directory and write the files listed in the body. -/
  | directory
  /-- Process another template with the same macros. -/
  | inclusion
  /-- Nothing. -/
  | comment
  deriving DecidableEq, Repr, Inhabited

/-- The handlers of the registered tags. Only the four handlers above can be registered: the table
that callers of the library see takes any function, and other functions are left out here. -/
structure SectionTable where
  handlers : List (Text × Handler)
  deriving DecidableEq, Repr, Inhabited

namespace SectionTable

def empty : SectionTable := ⟨[]⟩

/-- Register a handler for a tag, in place of the one it has. -/
def register (table : SectionTable) (tag : Text) (handler : Handler) : SectionTable :=
  ⟨(tag, handler) :: table.handlers.filter (·.1 ≠ tag)⟩

/-- The table with the tags `def`, `dir`, `include` and `comment`. -/
def standard : SectionTable :=
  (((empty.register "def" .definition).register "dir" .directory).register
    "include" .inclusion).register "comment" .comment

def get? (table : SectionTable) (tag : Text) : Option Handler :=
  table.handlers.lookup tag

def contains (table : SectionTable) (tag : Text) : Bool :=
  (table.get? tag).isSome

/-- The registered tags in increasing order. -/
def tags (table : SectionTable) : List Text :=
  FileSystem.sortNames (table.handlers.map Prod.fst)

/-- The table in words: its tags. -/
def describe (table : SectionTable) : Text :=
  "SectionTable \x7b tags: [" ++ List.intercalate (", " : Text) (table.tags.map Text.quoted) ++
    "] \x7d"

end SectionTable

end TemplateSuite
