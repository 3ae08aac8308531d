import TemplateSuite.Text.Basic

namespace TemplateSuite

/-- The content of a file: a text, or bytes that are not the UTF-8 form of any text. -/
inductive Content where
  | text (text : Text)
  | bytes (bytes : List UInt8)
  deriving DecidableEq, Repr, Inhabited

namespace Content

/-- The content with the given bytes. -/
def ofBytes (bytes : List UInt8) : Content :=
  match String.fromUTF8? ⟨bytes.toArray⟩ with
  | some decoded => .text decoded.toList
  | none => .bytes bytes

end Content

/-- The names on the way from the root to a place, without `.`, `..` and links. -/
abbrev Location := List Text

namespace Location

/-- The absolute path of a location. -/
def toPath (place : Location) : Text :=
  if place = [] then ['/'] else place.flatMap ('/' :: ·)

/-- The other location is strictly below this one. -/
def Encloses (place other : Location) : Prop :=
  place <+: other ∧ place ≠ other

instance (place other : Location) : Decidable (place.Encloses other) :=
  inferInstanceAs (Decidable (_ ∧ _))

end Location

/-- What can be found at a location. -/
inductive Entry where
  | directory
  | file (content : Content) (executable : Bool)
  /-- A symbolic link that stands for the given path. -/
  | link (target : Text)
  deriving DecidableEq, Repr, Inhabited

namespace Entry

def isDirectory : Entry → Bool
  | .directory => true
  | _ => false

def isFile : Entry → Bool
  | .file .. => true
  | _ => false

def isLink : Entry → Bool
  | .link _ => true
  | _ => false

end Entry

/-- An entry with everything below it. -/
inductive Node where
  | directory (children : List (Text × Node))
  | file (content : Content) (executable : Bool)
  | link (target : Text)
  deriving Repr, Inhabited

/-- The entry as a node that holds the given nodes, if it is a directory. -/
def Entry.toNode (children : List (Text × Node)) : Entry → Node
  | .directory => .directory children
  | .file content executable => .file content executable
  | .link target => .link target

namespace Node

/-- The node without what is below it. -/
def entry : Node → Entry
  | .directory _ => .directory
  | .file content executable => .file content executable
  | .link target => .link target

/-- What a node holds, by name; only directories hold anything. -/
def children : Node → List (Text × Node)
  | .directory children => children
  | _ => []

/-- The node, empty if it is a directory. -/
def cleared (node : Node) : Node :=
  node.entry.toNode []

/-- The node at a location below a node. -/
def at? : Location → Node → Option Node
  | [], node => some node
  | name :: rest, node => (node.children.lookup name).bind (at? rest)

/-- Make `child` the only child of its name, or let there be none. -/
def setChild (name : Text) (child : Option Node) (children : List (Text × Node)) :
    List (Text × Node) :=
  child.toList.map (name, ·) ++ children.filter (·.1 ≠ name)

/-- Change the node at a location below a node. In a directory a node can also be added or taken
away. -/
def change (f : Option Node → Option Node) : Location → Node → Node
  | [], node => (f (some node)).getD node
  | [name], .directory children => .directory (setChild name (f (children.lookup name)) children)
  | name :: rest, .directory children =>
    .directory (setChild name ((children.lookup name).map (change f rest)) children)
  | _, node => node

theorem lookup_filter_ne (name other : Text) (children : List (Text × Node)) :
    (children.filter (·.1 ≠ name)).lookup other =
      if other = name then none else children.lookup other := by
  induction children with
  | nil => simp
  | cons child rest ih =>
    obtain ⟨key, node⟩ := child
    by_cases hkey : key = name
    · subst hkey
      by_cases hother : other = key
      · subst hother
        simpa using ih
      · have hne : (other == key) = false := by simpa using hother
        simpa [List.lookup_cons, hne, hother] using ih
    · by_cases hother : other = key
      · subst hother
        simp [hkey]
      · have hne : (other == key) = false := by simpa using hother
        simpa [List.lookup_cons, hne, hkey] using ih

theorem lookup_setChild (name other : Text) (child : Option Node)
    (children : List (Text × Node)) :
    (setChild name child children).lookup other =
      if other = name then child else children.lookup other := by
  cases child with
  | none => exact lookup_filter_ne name other children
  | some node =>
    by_cases h : other = name
    · subst h
      simp [setChild]
    · have hne : (other == name) = false := by simpa using h
      have hfilter := lookup_filter_ne name other children
      simp only [setChild, Option.toList_some, List.map_cons, List.map_nil, List.cons_append,
        List.nil_append, List.lookup_cons, hne, hfilter, h, if_false]

@[simp]
theorem entry_directory (children : List (Text × Node)) : (directory children).entry = .directory :=
  rfl

theorem entry_toNode (e : Entry) (children : List (Text × Node)) :
    (e.toNode children).entry = e := by
  cases e <;> rfl

theorem exists_of_entry_eq_directory {node : Node} (h : node.entry = .directory) :
    ∃ children, node = .directory children := by
  cases node <;> simp_all [entry]

theorem children_of_entry_ne_directory {node : Node} (h : node.entry ≠ .directory) :
    node.children = [] := by
  cases node <;> simp_all [entry, children]

theorem at?_cons_directory (name : Text) (rest : Location) (children : List (Text × Node)) :
    at? (name :: rest) (.directory children) = (children.lookup name).bind (at? rest) := rfl

/-- What a change below a node makes of the child on the way. -/
def changedChild (f : Option Node → Option Node) (name : Text) (rest : Location)
    (children : List (Text × Node)) : Option Node :=
  if rest = [] then f (children.lookup name) else (children.lookup name).map (change f rest)

theorem change_cons (f : Option Node → Option Node) (name : Text) (rest : Location)
    (children : List (Text × Node)) :
    change f (name :: rest) (.directory children) =
      .directory (setChild name (changedChild f name rest children) children) := by
  cases rest <;> rfl

theorem change_of_not_directory (f : Option Node → Option Node) (name : Text) (rest : Location)
    {node : Node} (h : node.entry ≠ .directory) : change f (name :: rest) node = node := by
  cases rest <;> cases node <;> simp_all [change]

theorem directory_children_change (f : Option Node → Option Node) (children : List (Text × Node))
    {place : Location} (h : place ≠ []) :
    .directory (change f place (.directory children)).children =
      change f place (.directory children) := by
  obtain ⟨name, rest, rfl⟩ := List.exists_cons_of_ne_nil h
  rw [change_cons]
  rfl

theorem entry_at?_change_of_not_prefix (f : Option Node → Option Node) {place other : Location}
    (node : Node) (h : ¬ place <+: other) :
    (at? other (change f place node)).map entry = (at? other node).map entry := by
  induction place generalizing node other with
  | nil => exact absurd List.nil_prefix h
  | cons name rest ih =>
    by_cases hdir : node.entry = .directory
    · obtain ⟨children, rfl⟩ := exists_of_entry_eq_directory hdir
      rw [change_cons]
      cases other with
      | nil => rfl
      | cons first below =>
        rw [at?_cons_directory, at?_cons_directory, lookup_setChild]
        by_cases hname : first = name
        · subst hname
          have hrest : ¬ rest <+: below := fun hp => h (List.cons_prefix_cons.2 ⟨rfl, hp⟩)
          have hne : rest ≠ [] := fun hnil => hrest (hnil ▸ List.nil_prefix)
          rw [if_pos rfl, changedChild, if_neg hne]
          cases children.lookup first with
          | none => rfl
          | some child => exact ih child hrest
        · rw [if_neg hname]
    · rw [change_of_not_directory f name rest hdir]

theorem at?_change_append (f : Option Node → Option Node) (above : Location) (name : Text)
    (below : Location) (node : Node) {children : List (Text × Node)}
    (h : at? above node = some (.directory children)) :
    at? (above ++ name :: below) (change f (above ++ [name]) node) =
      (f (children.lookup name)).bind (at? below) := by
  induction above generalizing node with
  | nil =>
    obtain rfl : node = .directory children := Option.some.inj h
    rw [List.nil_append, List.nil_append, change_cons, at?_cons_directory, lookup_setChild,
      if_pos rfl, changedChild, if_pos rfl]
  | cons first rest ih =>
    by_cases hdir : node.entry = .directory
    · obtain ⟨siblings, rfl⟩ := exists_of_entry_eq_directory hdir
      rw [at?_cons_directory] at h
      obtain ⟨child, hchild, hat⟩ := Option.bind_eq_some_iff.1 h
      have hne : rest ++ [name] ≠ [] := by simp
      rw [List.cons_append, List.cons_append, change_cons, at?_cons_directory, lookup_setChild,
        if_pos rfl, changedChild, if_neg hne, hchild]
      exact ih child hat
    · simp [at?, children_of_entry_ne_directory hdir] at h

theorem at?_change_none {place : Location} (below : Location) (node : Node) (h : place ≠ []) :
    at? (place ++ below) (change (fun _ => none) place node) = none := by
  induction place generalizing node with
  | nil => exact absurd rfl h
  | cons name rest ih =>
    by_cases hdir : node.entry = .directory
    · obtain ⟨children, rfl⟩ := exists_of_entry_eq_directory hdir
      rw [List.cons_append, change_cons, at?_cons_directory, lookup_setChild, if_pos rfl,
        changedChild]
      by_cases hrest : rest = []
      · rw [if_pos hrest]
        rfl
      · rw [if_neg hrest]
        cases children.lookup name with
        | none => rfl
        | some child => exact ih child hrest
    · rw [change_of_not_directory _ name rest hdir, List.cons_append, at?,
        children_of_entry_ne_directory hdir]
      rfl

theorem changedChild_map (g : Node → Node) (name : Text) (rest : Location)
    (children : List (Text × Node)) :
    changedChild (Option.map g) name rest children =
      (children.lookup name).map (change (Option.map g) rest) := by
  rw [changedChild]
  split
  next h =>
    subst h
    cases children.lookup name <;> rfl
  next => rfl

theorem at?_change_map (g : Node → Node) (place below : Location) (node : Node) :
    at? (place ++ below) (change (Option.map g) place node) =
      (at? place node).bind fun found => at? below (g found) := by
  induction place generalizing node with
  | nil => rfl
  | cons name rest ih =>
    by_cases hdir : node.entry = .directory
    · obtain ⟨children, rfl⟩ := exists_of_entry_eq_directory hdir
      rw [List.cons_append, change_cons, changedChild_map, at?_cons_directory, at?_cons_directory,
        lookup_setChild, if_pos rfl]
      cases children.lookup name with
      | none => rfl
      | some child => exact ih child
    · rw [change_of_not_directory _ name rest hdir, List.cons_append, at?, at?,
        children_of_entry_ne_directory hdir]
      rfl

theorem entry_cleared (node : Node) : node.cleared.entry = node.entry :=
  entry_toNode _ _

theorem children_cleared (node : Node) : node.cleared.children = [] := by
  cases node <;> rfl

theorem entry_at?_change_cleared (place other : Location) (node : Node) :
    (at? other (change (Option.map cleared) place node)).map entry =
      if place.Encloses other then none else (at? other node).map entry := by
  by_cases hunder : place <+: other
  · obtain ⟨below, rfl⟩ := hunder
    rw [at?_change_map]
    cases below with
    | nil =>
      have hself : ¬ place.Encloses (place ++ []) := by simp [Location.Encloses]
      rw [if_neg hself, List.append_nil]
      cases at? place node with
      | none => rfl
      | some found => exact congrArg some (entry_cleared found)
    | cons first rest =>
      have hbelow : place.Encloses (place ++ first :: rest) := by simp [Location.Encloses]
      rw [if_pos hbelow]
      cases at? place node with
      | none => rfl
      | some found => simp [at?, children_cleared]
  · rw [if_neg fun h => hunder h.1, entry_at?_change_of_not_prefix _ node hunder]

mutual

/-- The entries at and below a node that is at the given place. -/
def entries (place : Location) : Node → List (Location × Entry)
  | .directory children => (place, .directory) :: childEntries place children
  | node => [(place, node.entry)]

/-- The entries at and below nodes that are in the given directory. -/
def childEntries (place : Location) : List (Text × Node) → List (Location × Entry)
  | [] => []
  | (name, node) :: rest => entries (place ++ [name]) node ++ childEntries place rest

end

end Node

end TemplateSuite
