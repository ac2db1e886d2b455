import PuzzleLevel.Store.Access

/-!
# Discovering Level Files

The level files of a directory are the files directly in it whose names end in a
dot and a listed extension. Each is known by its name without what follows the
last dot, and the levels are ordered by these identifiers; that order is the
order of play. Two files with one identifier are an error, found in the order in
which the extensions are listed and the names are sorted.

The paths that are reported are built up name by name from the path of the
directory, so they are shorter than it where it says something twice: a double
slash becomes a single one, and a leading dot is dropped. One odd case follows
from this. A leading dot with two slashes behind it leads nowhere, because the
empty name after the dot replaces it.

An extension may contain a slash; then what follows the slash names entries
below the directories that match the part in front.

## Main definitions

* `LevelFile`: A level file with its identifier.
* `DiscoveryError`: Why the level files of a directory cannot be told.
* `Selector`: What a name has to be on the way to a level file.
* `Store.select`: The paths that a list of selectors leads to.
* `Store.discover`: The level files of a directory.
-/

namespace PuzzleLevel

/-- A level file with its identifier. -/
structure LevelFile where
  /-- The name of the file without its extension. -/
  id : String
  path : Path
  deriving DecidableEq, Repr

/-- Why the level files of a directory cannot be told. -/
inductive DiscoveryError where
  | unreadable (directory : Path) (fault : FileFault)
  | notDirectory (path : Path)
  | duplicate (id : String) (first second : Path)
  /-- A file has no name that is text. -/
  | invalidName (shown : String)
  deriving DecidableEq, Repr

namespace DiscoveryError

def message : DiscoveryError → String
  | unreadable directory fault => "cannot read " ++ directory.text ++ ": " ++ fault.message
  | notDirectory path => path.text ++ " is not a directory"
  | duplicate id first second =>
    "level '" ++ id ++ "' is defined by both " ++ first.text ++ " and " ++ second.text
  | invalidName shown => "level file name is not valid UTF-8: " ++ shown

end DiscoveryError

/-- The identifier of a level file. -/
def Path.levelId (p : Path) : Except DiscoveryError String :=
  match p.fileStem? with
  | some stem => .ok (String.ofList stem)
  | none => .error (.invalidName p.text)

/-- The identifier of a level file whose path is given as bytes. The slashes and
    dots of a path are single bytes, so it can be taken apart byte by byte. -/
def levelIdOfBytes (bytes : List UInt8) : Except DiscoveryError String :=
  let p : Path := ⟨bytes.map fun b => Char.ofNat b.toNat⟩
  match p.fileStem?.bind fun stem => Text.decode? (stem.map fun c => c.toNat.toUInt8) with
  | some stem => .ok (String.ofList stem)
  | none => .error (.invalidName (String.ofList (Text.decodeLossy bytes)))

/-- What a name has to be on the way to a level file. -/
inductive Selector where
  | name (name : List Char)
  /-- Any name with this ending. -/
  | ending (suffix : List Char)
  deriving DecidableEq, Repr

namespace Selector

/-- The pieces of a text between its slashes, of which an empty one at the end
    does not count. -/
def pieces (chars : List Char) : List (List Char) :=
  let all := Path.segments chars
  if all.getLast? = some [] then all.dropLast else all

/-- The selectors for the directories of a path. -/
def ofDirectory (directory : Path) : List Selector :=
  (Path.segments (directory.chars.drop (if directory.isAbsolute then 1 else 0))).map .name

/-- The selectors for an extension. -/
def ofExtension (extension : String) : List Selector :=
  match pieces ('.' :: extension.toList) with
  | [] => []
  | first :: more => .ending first :: more.map .name

end Selector

/-- Whether a path is the working directory and no more. -/
def Path.isHere (p : Path) : Bool :=
  p.front = ['.'] && p.reversedNames.isEmpty

namespace Store

/-- The path of a name in a directory, where the working directory goes without
    saying. -/
def follow (p : Path) (name : List Char) : Path :=
  if p.isHere then ⟨name⟩ else p.join ⟨name⟩

/-- The paths that a list of selectors leads to from a path. -/
def select (store : Store) : List Selector → Path → List Path
  | [], p => [p]
  | .name name :: more, p =>
    let next := follow p name
    -- Going nowhere or up needs a directory; any other name needs an entry.
    let isThere :=
      if name = ['.'] ∨ name = ['.', '.'] then store.isDirectory p else store.present next
    if isThere then select store more next else []
  | .ending suffix :: more, p =>
    if store.isDirectory p then
      ((store.namesIn p).filter fun name => suffix.isSuffixOf name).flatMap fun name =>
        select store more (follow p name)
    else []

/-- The files that match one extension, in the order of their names. -/
def matching (store : Store) (directory : Path) (extension : String) : List Path :=
  let start : Path := if directory.isAbsolute then ⟨['/']⟩ else ⟨['.']⟩
  let found := store.select (Selector.ofDirectory directory ++ Selector.ofExtension extension) start
  -- A slash at the end asks for directories, and none of them is a level file.
  if extension.toList.getLast? = some '/' then [] else found.filter store.isFile

end Store

namespace Path

/-- The names of a path in the order in which paths are compared: the front, then
    each segment that is not silent. Going up comes before every name, and both
    come after a front. -/
def orderKey (p : Path) : List (Nat × List Char) :=
  (if p.front = ['/'] then [(0, [])] else if p.front = ['.'] then [(1, [])] else []) ++
    ((segments (p.chars.drop (frontLength p.chars))).filter fun s => !isSilent s).map fun s =>
      if s = ['.', '.'] then (2, []) else (3, s)

/-- Whether one list of ranked names comes before another or equals it. -/
def keyLe : List (Nat × List Char) → List (Nat × List Char) → Bool
  | [], _ => true
  | _ :: _, [] => false
  | (m, a) :: as, (n, b) :: bs =>
    if m = n ∧ a = b then keyLe as bs else m < n || (m = n && a < b)

/-- Two paths in their order. -/
def ordered (a b : Path) : Path × Path :=
  if keyLe a.orderKey b.orderKey then (a, b) else (b, a)

end Path

namespace LevelFile

/-- Puts a level file into a list that is ordered by identifiers. -/
def insert (file : LevelFile) : List LevelFile → List LevelFile
  | [] => [file]
  | first :: more =>
    if file.id < first.id then file :: first :: more else first :: insert file more

/-- The list with one more level file, unless its identifier is taken. -/
def add (files : List LevelFile) (path : Path) : Except DiscoveryError (List LevelFile) :=
  match path.levelId with
  | .error error => .error error
  | .ok id =>
    match files.find? fun file => file.id = id with
    | some other =>
      let (first, second) := other.path.ordered path
      .error (.duplicate id first second)
    | none => .ok (insert ⟨id, path⟩ files)

/-- The list with more level files, up to the first whose identifier is taken. -/
def addAll (files : List LevelFile) : List Path → Except DiscoveryError (List LevelFile)
  | [] => .ok files
  | path :: more =>
    match add files path with
    | .error error => .error error
    | .ok files => addAll files more

end LevelFile

/-- The level files of a directory, ordered by their identifiers. -/
def Store.discover (store : Store) (directory : Path) (extensions : List String) :
    Except DiscoveryError (List LevelFile) :=
  match store.entryAt directory with
  | .error fault => .error (.unreadable directory fault)
  | .ok (.file _) => .error (.notDirectory directory)
  | .ok .directory =>
    LevelFile.addAll [] (extensions.flatMap fun extension => store.matching directory extension)

end PuzzleLevel
