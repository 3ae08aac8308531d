import TemplateSuite.Document.Value

namespace TemplateSuite

namespace Toml

/-- How a table came about. -/
inductive Origin where
  /-- By a header of its own, or as the root. -/
  | header
  /-- By the dots of a header; it may still get a header of its own. -/
  | headerPath
  /-- By the dots of a key; only dotted keys may add to it. -/
  | dottedKey
  deriving DecidableEq, Repr, Inhabited

/-- What a key of a table stands for. -/
inductive Node where
  /-- A value, which nothing can be added to. -/
  | value (value : Value)
  /-- A table with its members in order. -/
  | table (origin : Origin) (members : List (Text × Node))
  /-- The tables of an array, latest first. -/
  | array (tables : List (List (Text × Node)))
  deriving Inhabited

/-- The members of a table. -/
abbrev Members := List (Text × Node)

/-- Change what a key stands for, in place. -/
def replaceMember (key : Text) (node : Node) : Members → Members
  | [] => []
  | (name, old) :: rest =>
    if name = key then (name, node) :: rest else (name, old) :: replaceMember key node rest

/-- Change the table that a path leads to; tables that are missing on the way are made. -/
def descend (dotted : Bool) (f : Origin → Members → Option Members) :
    (path : List Text) → Origin → Members → Option Members
  | [], origin, members => f origin members
  | key :: path, _, members =>
    match members.lookup key with
    | none => do
      let origin := if dotted then .dottedKey else .headerPath
      let inner ← descend dotted f path origin []
      return members ++ [(key, .table origin inner)]
    | some (.value _) => none
    | some (.array []) => none
    -- a path through an array goes through its latest table
    | some (.array (latest :: earlier)) => do
      let inner ← descend dotted f path .header latest
      return replaceMember key (.array (inner :: earlier)) members
    | some (.table origin inner) =>
      -- dotted keys lead through no table that has a header of its own
      if dotted ∧ origin = .header then none
      else do
        let inner ← descend dotted f path origin inner
        return replaceMember key (.table origin inner) members

/-- Add a key with its value. A key without dots adds to a table that no dotted key made, and a
dotted key to one that a dotted key made. -/
def insertValue (path : List Text) (key : Text) (value : Node) (origin : Origin)
    (members : Members) : Option Members :=
  descend true
    (fun reached members =>
      if (reached == .dottedKey) == path.isEmpty then none
      else if (members.lookup key).isSome then none
      else some (members ++ [(key, value)]))
    path origin members

/-- Open a table by a header. It may exist already as part of the path of another header. -/
def openTable (key : Text) (members : Members) : Option Members :=
  match members.lookup key with
  | none => some (members ++ [(key, .table .header [])])
  | some (.table .headerPath inner) =>
    some (members.filter (·.1 ≠ key) ++ [(key, .table .header inner)])
  | some _ => none

/-- Open the next table of an array by a header. -/
def openArrayTable (key : Text) (members : Members) : Option Members :=
  match members.lookup key with
  | none => some (members ++ [(key, .array [[]])])
  | some (.array tables) => some (replaceMember key (.array ([] :: tables)) members)
  | some _ => none

/-- Change the table that a header has opened. -/
def changeOpened (f : Origin → Members → Option Members) : List Text → Members → Option Members
  | path, members => descend false f path .header members

mutual

def Node.toValue : Node → Value
  | .value value => value
  | .table _ members => .record (membersToValues members)
  | .array tables => .list (tablesToValues tables).reverse

def membersToValues : List (Text × Node) → List (Text × Value)
  | [] => []
  | (name, node) :: rest => (name, node.toValue) :: membersToValues rest

def tablesToValues : List (List (Text × Node)) → List Value
  | [] => []
  | members :: rest => .record (membersToValues members) :: tablesToValues rest

end

end Toml

end TemplateSuite
