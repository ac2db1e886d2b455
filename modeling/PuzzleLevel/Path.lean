/-!
# Paths as They Are Written

A path is the text that names a file or directory. Nothing here looks at a file
system: joining, going to the parent and asking for the last name are questions
about the text, and they leave the text as it is wherever they can. `a//b` and
`a/./b` stay what they are, though both name the same entry as `a/b`.

A path is cut into its front and its segments. The front is a leading slash, or
a leading dot that is a segment of its own, or nothing; it is not a name. In the
segments, empty ones and single dots are *silent*: they name nothing.

## Main definitions

* `Path`: A path.
* `Path.join`: One path below another.
* `Path.fileName?`, `Path.fileStem?`: The last name, and it without its
  extension.
* `Path.parent?`: What stands before the last name.
* `Path.withFileName`: The path with another last name.
* `Path.ancestors`: A path, its parent, the parent of that, and so on.
-/

namespace PuzzleLevel

/-- A path, as it is written. -/
structure Path where
  chars : List Char
  deriving DecidableEq, Repr, Inhabited

namespace Path

def ofString (text : String) : Path :=
  ⟨text.toList⟩

def text (p : Path) : String :=
  String.ofList p.chars

/-- Whether a path starts at the root. -/
def isAbsolute (p : Path) : Bool :=
  p.chars.head? = some '/'

/-- One path below another. An absolute path replaces what it is joined to; any
    other is set off by a slash unless one is there or nothing stands before. -/
def join (base path : Path) : Path :=
  if path.isAbsolute then path
  else if base.chars.isEmpty || base.chars.getLast? = some '/' then ⟨base.chars ++ path.chars⟩
  else ⟨base.chars ++ '/' :: path.chars⟩

/-- The path of an entry of a directory. -/
def child (directory : Path) (name : String) : Path :=
  directory.join (ofString name)

/-- The pieces of a text between its slashes; there is always at least one. -/
def segments : List Char → List (List Char)
  | [] => [[]]
  | c :: rest =>
    if c = '/' then [] :: segments rest
    else
      match segments rest with
      | [] => [[c]]
      | segment :: more => (c :: segment) :: more

/-- The text in which slashes stand between the given pieces. -/
def joinSegments (pieces : List (List Char)) : List Char :=
  ['/'].intercalate pieces

/-- Whether a segment names nothing. -/
def isSilent (segment : List Char) : Bool :=
  segment = [] || segment = ['.']

/-- The number of characters that stand before the segments of a path. -/
def frontLength : List Char → Nat
  | '/' :: _ => 1
  | ['.'] => 1
  | '.' :: '/' :: _ => 1
  | _ => 0

/-- The front of a path: a slash, a dot that is a segment of its own, or
    nothing. -/
def front (p : Path) : List Char :=
  p.chars.take (frontLength p.chars)

/-- The segments of a path behind its front, the last one first, from the last
    one that is not silent. -/
def reversedNames (p : Path) : List (List Char) :=
  (segments (p.chars.drop (frontLength p.chars))).reverse.dropWhile isSilent

/-- The last name of a path. Going up is no name. -/
def lastName? (p : Path) : Option (List Char) :=
  match p.reversedNames with
  | [] => none
  | name :: _ => if name = ['.', '.'] then none else some name

def fileName? (p : Path) : Option String :=
  p.lastName?.map String.ofList

/-- A name without its extension, which is what follows the last dot. A dot in
    front of the whole name starts no extension. -/
def stem (name : List Char) : List Char :=
  -- What stands before the last dot, backwards.
  let before := (name.reverse.dropWhile (· ≠ '.')).drop 1
  if before.isEmpty then name else before.reverse

/-- The last name of a path without its extension. -/
def fileStem? (p : Path) : Option (List Char) :=
  p.lastName?.map stem

/-- What stands before the last segment of a path. Nothing stands before the
    root, nor before an empty path. -/
def parent? (p : Path) : Option Path :=
  match p.reversedNames with
  | _ :: before =>
    some ⟨p.front ++ joinSegments (before.dropWhile isSilent).reverse⟩
  -- A lone dot is below the empty path, which like the root is below nothing.
  | [] => if p.front = ['.'] then some ⟨[]⟩ else none

/-- The path with another last name; a path without one gets it appended. -/
def withFileName (p : Path) (name : String) : Path :=
  match p.lastName? with
  | none => p.child name
  | some _ => (p.parent?.getD p).child name

/-- The start of a path, its parent, the parent of that, and so on, at most
    `limit` of them. -/
def ancestorsUpTo : (limit : Nat) → Path → List Path
  | 0, _ => []
  | limit + 1, p =>
    p ::
      match p.parent? with
      | some q => ancestorsUpTo limit q
      | none => []

/-- A path, its parent, the parent of that, and so on. A parent is shorter than
    its path, so there are no more of them than the path has characters. -/
def ancestors (p : Path) : List Path :=
  ancestorsUpTo (p.chars.length + 1) p

end Path

end PuzzleLevel
