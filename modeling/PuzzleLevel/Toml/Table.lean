import PuzzleLevel.Toml.Basic

/-!
# Tables from Statements

The statements of a document build one table. A header opens a table that the
following keys go into; a header in double brackets opens a new element of a list
of tables; a dotted key goes into tables below the open one. On the way down a
missing table is made, and a list of tables is entered at its last element.

Nothing may be defined twice, and a table may not be opened again in another way
than it was made. To tell these apart, a table remembers whether it was only
passed on the way down (it is *implicit*), and whether that was through a dotted
key. A header may define a table that was passed by headers so far, and a dotted
key may enter a table that was made by dotted keys or passed by headers.

## Main definitions

* `Toml.Statement`: A line of a document.
* `Toml.Tree`: A table while it is built.
* `Toml.Tree.ofStatements?`: The table of a document.
* `Toml.Tree.inlineTable?`: The table written between braces.
-/

namespace PuzzleLevel

namespace Toml

/-- A line of a document. -/
inductive Statement where
  | assign (key : List (List Char)) (value : Toml)
  | header (key : List (List Char))
  /-- The header of a new element of a list of tables. -/
  | element (key : List (List Char))

/-- A table, or what stands in it, while it is built. -/
inductive Tree where
  | leaf (value : Toml)
  /-- A table, with whether it was only passed, whether through a dotted key, and
      its members. -/
  | table (implicit dotted : Bool) (members : List (List Char × Tree))
  | tables (elements : List Tree)

namespace Tree

/-- A table that was opened and is empty. -/
def opened : Tree := .table false false []

/-- What stands under a key. -/
def member? (members : List (List Char × Tree)) (key : List Char) : Option Tree :=
  (members.find? fun member => member.1 = key).map Prod.snd

/-- The members with another tree under a key. -/
def replace (members : List (List Char × Tree)) (key : List Char) (tree : Tree) :
    List (List Char × Tree) :=
  if (member? members key).isSome then
    members.map fun member => if member.1 = key then (key, tree) else member
  else members ++ [(key, tree)]

/-- Changes the table at the end of a path. A dotted key may not enter a table
    that a header has opened. -/
def descend (dotted : Bool) (change : Tree → Option Tree) : List (List Char) → Tree → Option Tree
  | [], tree => change tree
  | key :: more, .table implicit wasDotted members =>
    let child? : Option Tree :=
      match member? members key with
      -- A table that is only passed is implicit until a header opens it.
      | none => descend dotted change more (.table true dotted [])
      | some (.leaf _) => none
      | some (.tables elements) =>
        match elements.getLast? with
        | none => none
        | some last =>
          (descend dotted change more last).map fun last => .tables (elements.dropLast ++ [last])
      | some (.table childImplicit childDotted inner) =>
        -- A table that a header has opened is closed to dotted keys.
        if dotted && !childImplicit then none
        else descend dotted change more (.table childImplicit childDotted inner)
    child?.map fun child => .table implicit wasDotted (replace members key child)
  | _ :: _, _ => none

/-- Puts a value under a key that must be free. Whether the table was made by a
    dotted key must fit whether the key is dotted. -/
def assignAt (viaDots : Bool) (key : List Char) (value : Tree) : Tree → Option Tree
  | .table implicit dotted members =>
    if dotted = viaDots && (member? members key).isNone then
      some (.table implicit dotted (members ++ [(key, value)]))
    else none
  | _ => none

/-- Assigns a value to a key in a table. -/
def assign (key : List (List Char)) (value : Tree) (tree : Tree) : Option Tree :=
  match key.getLast? with
  | none => none
  | some last =>
    descend (key.length != 1) (assignAt (key.length != 1) last value) key.dropLast tree

/-- Opens a table, which must be new or only have been passed by headers. -/
def openAt (key : List Char) : Tree → Option Tree
  | .table implicit dotted members =>
    match member? members key with
    | none => some (.table implicit dotted (members ++ [(key, opened)]))
    -- Passed by headers so far, so this header is the one that opens it.
    | some (.table true false inner) =>
      some (.table implicit dotted (replace members key (.table false false inner)))
    | some _ => none
  | _ => none

/-- Opens a new element of a list of tables, which may be new itself. -/
def appendAt (key : List Char) : Tree → Option Tree
  | .table implicit dotted members =>
    match member? members key with
    | none => some (.table implicit dotted (members ++ [(key, .tables [opened])]))
    | some (.tables elements) =>
      some (.table implicit dotted (replace members key (.tables (elements ++ [opened]))))
    | some _ => none
  | _ => none

/-- A document while it is built: its table and the path of the open one. -/
structure Building where
  root : Tree := opened
  /-- The path of the table that keys go into. -/
  current : List (List Char) := []

/-- The document with one more statement. -/
def step (building : Building) : Statement → Option Building
  | .assign key value =>
    (descend false (assign key (.leaf value)) building.current building.root).map fun root =>
      { building with root }
  | .header key =>
    match key.getLast? with
    | none => none
    | some last => (descend false (openAt last) key.dropLast building.root).map (⟨·, key⟩)
  | .element key =>
    match key.getLast? with
    | none => none
    | some last => (descend false (appendAt last) key.dropLast building.root).map (⟨·, key⟩)

mutual

/-- The value that a tree has become. -/
def value : Tree → Toml
  | .leaf v => v
  | .table _ _ members => .table (valuesOfMembers members)
  | .tables elements => .array (values elements)

/-- The values that trees have become. -/
def values : List Tree → List Toml
  | [] => []
  | tree :: more => value tree :: values more

/-- The members that trees under keys have become. -/
def valuesOfMembers : List (List Char × Tree) → List (List Char × Toml)
  | [] => []
  | (key, tree) :: more => (key, value tree) :: valuesOfMembers more

end

/-- The members of the table of a document. -/
def ofStatements? (statements : List Statement) : Option (List (List Char × Toml)) :=
  match statements.foldlM step {} with
  | some ⟨.table _ _ members, _⟩ => some (valuesOfMembers members)
  | _ => none

/-- The table with the given members, which are written as a document would be. -/
def inlineTable? (members : List (List (List Char) × Toml)) : Option Toml :=
  (ofStatements? (members.map fun (key, value) => .assign key value)).map .table

end Tree

end Toml

end PuzzleLevel
