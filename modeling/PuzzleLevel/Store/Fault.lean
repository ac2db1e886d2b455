/-!
# Faults of File Operations

What can go wrong when a path is used, and the words for it. Operations on files
fail for few reasons here: the path leads nowhere, leads through something that
is no directory, holds a name that is too long, or ends at the wrong kind of
entry; and a file may hold bytes that are no text.

## Main definitions

* `FileFault`: The reasons.
* `FileFault.message`: The system's words for each.
-/

namespace PuzzleLevel

/-- Why a file operation failed. -/
inductive FileFault where
  | notFound
  /-- There is an entry where a new one was to be made. -/
  | occupied
  /-- The path leads through an entry that is no directory. -/
  | notDirectory
  | isDirectory
  /-- The path, or a name in it, is longer than a file system allows. -/
  | nameTooLong
  /-- The path holds a character that ends a path. -/
  | nulInPath
  | notText
  deriving DecidableEq, Repr

namespace FileFault

def message : FileFault → String
  | notFound => "No such file or directory (os error 2)"
  | occupied => "File exists (os error 17)"
  | notDirectory => "Not a directory (os error 20)"
  | isDirectory => "Is a directory (os error 21)"
  | nameTooLong => "File name too long (os error 36)"
  | nulInPath => "file name contained an unexpected NUL byte"
  | notText => "stream did not contain valid UTF-8"

end FileFault

end PuzzleLevel
