import PuzzleLevel.Store.Access

/-!
# Changing a Store

Everything that changes a store is one of four operations, so that a longer
change can be written down as a list of them and looked at from outside: what
was done after the first few is the state that a crash would leave.

An operation that fails may have done a part of its work. Making directories can:
those made before the one that failed stay. On a disk that is full, a write can as
well, and then the front of the text is in the file. A store is never full here, so
this is assumed away: a write does all of its work or none. What is promised of a
write that failed has to leave room for the other case.

## Main definitions

* `Operation`: One change.
* `Operation.run`: The store after a change, with what went wrong.
-/

namespace PuzzleLevel

namespace Store

/-- Makes one directory. Slashes at the end of its path do not matter. -/
def makeDirectory (store : Store) (p : Path) : Store × Option FileFault :=
  let bare : Path := ⟨(p.chars.reverse.dropWhile (· = '/')).reverse⟩
  match store.locate (if bare.chars.isEmpty then p else bare) with
  | .error fault => (store, some fault)
  | .ok location =>
    match store.find? location with
    | some _ => (store, some .occupied)
    | none => (store.put location .directory, none)

/-- Makes one directory, content with one that is there. -/
def makeOrAccept (store : Store) (p : Path) : Store × Option FileFault :=
  match store.makeDirectory p with
  | (after, none) => (after, none)
  | (_, some fault) => (store, if store.isDirectory p then none else some fault)

/-- Makes the first directory of a list in which each path is followed by its
    parent, together with those that are missing above it. The empty path stands
    for the working directory, which is there. -/
def makeDirectoriesAlong (store : Store) : List Path → Store × Option FileFault
  | [] => (store, some .notFound)
  | p :: above =>
    if p.chars.isEmpty then (store, none)
    else
      match store.makeDirectory p with
      | (after, none) => (after, none)
      -- Something above is missing: make that first, then try once more.
      | (_, some .notFound) =>
        match makeDirectoriesAlong store above with
        | (after, none) => after.makeOrAccept p
        | (after, some fault) => (after, some fault)
      -- Any other fault is none when the directory is there after all.
      | (_, some fault) => (store, if store.isDirectory p then none else some fault)

/-- Makes a directory and those above it that are missing. -/
def makeDirectories (store : Store) (p : Path) : Store × Option FileFault :=
  store.makeDirectoriesAlong p.ancestors

/-- Writes a text file, in place of a file that is there. There is room for every text, so
    no file is left with a part of one. -/
def writeFile (store : Store) (p : Path) (content : Content) : Store × Option FileFault :=
  match store.locate p with
  | .error fault => (store, some fault)
  | .ok location =>
    match store.find? location with
    | some .directory => (store, some .isDirectory)
    | _ => (store.put location (.file content), none)

def moveFile (store : Store) (source target : Path) : Store × Option FileFault :=
  match store.locate source, store.locate target with
  | .error fault, _ => (store, some fault)
  | _, .error fault => (store, some fault)
  | .ok start, .ok goal =>
    match store.find? start, store.find? goal with
    | none, _ => (store, some .notFound)
    -- A file does not take the place of a directory.
    | some _, some .directory => (store, some .isDirectory)
    | some entry, _ => ((store.erase start).put goal entry, none)

def removeFile (store : Store) (p : Path) : Store × Option FileFault :=
  match store.locate p with
  | .error fault => (store, some fault)
  | .ok location =>
    match store.find? location with
    | none => (store, some .notFound)
    | some .directory => (store, some .isDirectory)
    | some (.file _) => (store.erase location, none)

end Store

/-- One change of a store. -/
inductive Operation where
  /-- Makes a directory and those above it, unless something is there. -/
  | ensureDirectory (directory : Path)
  | write (path : Path) (text : String)
  | move (source target : Path)
  /-- Removes a file, content when there is none. -/
  | remove (path : Path)
  deriving DecidableEq, Repr

/-- The store after a change, with what went wrong. -/
def Operation.run (store : Store) : Operation → Store × Option FileFault
  | .ensureDirectory directory =>
    if directory.chars.isEmpty || store.present directory then (store, none)
    else store.makeDirectories directory
  | .write path text => store.writeFile path (.text text)
  | .move source target => store.moveFile source target
  | .remove path =>
    match store.removeFile path with
    | (after, some .notFound) => (after, none)
    | result => result

end PuzzleLevel
