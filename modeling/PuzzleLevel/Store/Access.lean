import PuzzleLevel.Store.Basic

/-!
# Looking Things Up in a Store

A path is followed name by name, from the root if it is absolute and from the
working directory otherwise. Every name but the last must lead to a directory;
a dot stays where it is, two dots go back up, and a slash at the end asks for a
directory like a dot would. The last name need not lead anywhere, since something
may be about to be put there.

Before a path is followed at all it must be usable: it must not be empty, hold no
character that ends a path, and be short enough.

## Main definitions

* `Store.locate`: Where a path leads.
* `Store.entryAt`: What stands there.
* `Store.isDirectory`, `Store.isFile`, `Store.present`: Questions about it.
* `Store.readText`: The text of a file.
* `Store.search?`: The nearest directory with a file of a name.
-/

namespace PuzzleLevel

/-- The number of bytes of a text in UTF-8. -/
def byteLength (chars : List Char) : Nat :=
  (chars.map Char.utf8Size).foldr (· + ·) 0

/-- The greatest number of bytes of a name. -/
def maxNameBytes : Nat := 255

/-- The smallest number of bytes that a path may not have. -/
def pathBytesBound : Nat := 4096

namespace Store

/-- Follows names from a location. -/
def walk (store : Store) : Location → List (List Char) → Except FileFault Location
  | location, [] => .ok location
  | location, name :: more =>
    match store.find? location with
    | none => .error .notFound
    | some (.file _) => .error .notDirectory
    | some .directory =>
      -- A dot is only followed from a directory, which is why it is looked up first.
      if name = ['.'] then walk store location more
      else if name = ['.', '.'] then walk store location.dropLast more
      else if maxNameBytes < byteLength name then .error .nameTooLong
      else walk store (location ++ [name]) more

/-- The names that a path has to be followed through. -/
def steps (p : Path) : List (List Char) :=
  -- A slash at the end asks for a directory, and so would a dot behind it.
  (Path.segments p.chars).filter (· ≠ []) ++
    if p.chars.getLast? = some '/' then [['.']] else []

/-- Why a path cannot be used, if it cannot. -/
def pathFault? (p : Path) : Option FileFault :=
  if '\x00' ∈ p.chars then some .nulInPath
  else if pathBytesBound ≤ byteLength p.chars then some .nameTooLong
  else if p.chars.isEmpty then some .notFound
  else none

/-- Where a path leads. -/
def locate (store : Store) (p : Path) : Except FileFault Location :=
  match pathFault? p with
  | some fault => .error fault
  | none => store.walk (if p.isAbsolute then [] else store.here) (steps p)

/-- What stands where a path leads. -/
def entryAt (store : Store) (p : Path) : Except FileFault Entry :=
  match store.locate p with
  | .error fault => .error fault
  | .ok location =>
    match store.find? location with
    | none => .error .notFound
    | some entry => .ok entry

def present (store : Store) (p : Path) : Bool :=
  match store.entryAt p with
  | .ok _ => true
  | .error _ => false

def isDirectory (store : Store) (p : Path) : Bool :=
  match store.entryAt p with
  | .ok .directory => true
  | _ => false

def isFile (store : Store) (p : Path) : Bool :=
  match store.entryAt p with
  | .ok (.file _) => true
  | _ => false

def readText (store : Store) (p : Path) : Except FileFault String :=
  match store.entryAt p with
  | .error fault => .error fault
  | .ok .directory => .error .isDirectory
  | .ok (.file (.binary _)) => .error .notText
  | .ok (.file (.text text)) => .ok text

/-- The names in the directory that a path leads to, in the order of their
    characters. -/
def namesIn (store : Store) (p : Path) : List (List Char) :=
  match store.locate p with
  | .ok location => store.names location
  | .error _ => []

/-- The path of a name in a directory or in the nearest directory above it, where
    above is what the path says and not what the store does. -/
def search? (store : Store) (directory : Path) (name : String) : Option Path :=
  (directory.ancestors.map fun above => above.child name).find? fun p => store.present p

end Store

end PuzzleLevel
