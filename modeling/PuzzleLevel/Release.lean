import PuzzleLevel.Json.Reader
import PuzzleLevel.Level.Decoding
import PuzzleLevel.Store.Operation

/-!
# Releasing the Artifacts of a Build

A build leaves one file for each level and one for the index, and it leaves them
as one unit as far as files allow. Every artifact is first written under a
staging name next to its own, and nothing that was there before is touched until
all of them are written. Then they are moved into place, the index last, and
finally the files of levels that the previous index lists and this build does not
have are removed.

If staging fails, what was staged is discarded again. Once the first artifact is
in place there is no way back: a failure then leaves things as they are, and the
index still lists the previous levels unless it was moved itself.

Only identifiers that can be names of files in the directory are believed when an
old index lists them. Whatever else it says, it cannot reach files elsewhere.

## Main definitions

* `Artifact`: A file to be released.
* `Release`: What is to be released where.
* `Artifact.staging`, `Release.promotion`, `Release.retirement`: The steps of a
  release.
* `Release.run`: The store after a release.
* `Release.performed`: The changes that a release makes, one by one.
-/

namespace PuzzleLevel

/-- Why artifacts were not released. -/
structure OutputError where
  /-- The file that could not be changed. -/
  path : Path
  fault : FileFault
  deriving DecidableEq, Repr

def OutputError.message (error : OutputError) : String :=
  "failed to write " ++ error.path.text ++ ": " ++ error.fault.message

/-- A change together with the file that is blamed when it fails. -/
structure Step where
  operation : Operation
  /-- The file that is blamed. -/
  blamed : Path
  deriving DecidableEq, Repr

/-- The store after a list of steps, up to the first that fails. -/
def Step.runAll (store : Store) : List Step → Store × Option OutputError
  | [] => (store, none)
  | step :: more =>
    match step.operation.run store with
    | (after, some fault) => (after, some ⟨step.blamed, fault⟩)
    | (after, none) => runAll after more

/-- The changes that are made by a list of steps, up to and with the first that
    fails. -/
def Step.performed (store : Store) : List Step → List Operation
  | [] => []
  | step :: more =>
    match step.operation.run store with
    | (_, some _) => [step.operation]
    | (after, none) => step.operation :: performed after more

/-- A file to be released. -/
structure Artifact where
  path : Path
  text : String
  deriving DecidableEq, Repr

namespace Artifact

/-- Where an artifact is written first, next to where it belongs. -/
def staged (artifact : Artifact) : Path :=
  artifact.path.withFileName ("." ++ artifact.path.fileName?.getD "" ++ ".tmp")

/-- The steps that write an artifact under its staging name. -/
def staging (artifact : Artifact) : List Step :=
  [⟨.ensureDirectory (artifact.staged.parent?.getD ⟨[]⟩), artifact.staged⟩,
    ⟨.write artifact.staged artifact.text, artifact.staged⟩]

/-- The step that moves an artifact into place. -/
def promotion (artifact : Artifact) : Step :=
  ⟨.move artifact.staged artifact.path, artifact.path⟩

end Artifact

/-- The name of the file that holds the index. -/
def indexFileName : String := "index.json"

/-- The file of a level in a directory of artifacts. -/
def levelPath (directory : Path) (id : String) : Path :=
  directory.child (id ++ ".json")

/-- Whether an identifier can be a part of the name of a file. -/
def isPlainId (id : String) : Bool :=
  id ≠ "" && id ≠ "." && id ≠ ".." && !id.toList.any fun c => c = '/' || c = '\\'

/-- The identifiers that the index in a directory lists, none if there is no such
    index. -/
def previousOrder (store : Store) (directory : Path) : List String :=
  match store.readText (directory.child indexFileName) with
  | .error _ => []
  | .ok text => ((Json.read? text.toList).map LevelIndex.order).getD []

/-- What is to be released where. -/
structure Release where
  directory : Path
  order : List String
  index : LevelIndex
  deriving DecidableEq, Repr

namespace Release

/-- The files to be released, the index last. -/
def artifacts (release : Release) : List Artifact :=
  (release.order.zip release.index.levels).map
      (fun (id, level) => ⟨levelPath release.directory id, level.toJson.indented⟩) ++
    [⟨release.directory.child indexFileName,
      (release.index.document release.order).indented⟩]

/-- The steps that move everything into place. -/
def promotion (release : Release) : List Step :=
  release.artifacts.map Artifact.promotion

/-- The identifiers of an earlier release that this one does not have. -/
def retired (release : Release) (previous : List String) : List String :=
  previous.filter fun id => !release.order.contains id && isPlainId id

/-- The steps that remove the files of levels that are gone. -/
def retirement (release : Release) (previous : List String) : List Step :=
  (release.retired previous).map fun id =>
    ⟨.remove (levelPath release.directory id), levelPath release.directory id⟩

/-- The store without the given files, as far as they can be removed. -/
def discard (store : Store) : List Path → Store
  | [] => store
  | path :: more => discard ((Operation.remove path).run store).1 more

/-- The store after writing artifacts under their staging names. When one cannot
    be written, those written before it are discarded. -/
def stage (store : Store) (written : List Path) : List Artifact → Store × Option OutputError
  | [] => (store, none)
  | artifact :: more =>
    match Step.runAll store artifact.staging with
    | (after, some error) => (discard after written, some error)
    | (after, none) => stage after (written ++ [artifact.staged]) more

/-- The store after a release, with the files that were written. -/
def run (release : Release) (store : Store) : Store × Except OutputError (List Path) :=
  -- The old index is read before anything is written; promotion replaces it.
  let previous := previousOrder store release.directory
  match stage store [] release.artifacts with
  | (after, some error) => (after, .error error)
  | (after, none) =>
    -- From the first move on there is no way back.
    match Step.runAll after (release.promotion ++ release.retirement previous) with
    | (final, some error) => (final, .error error)
    | (final, none) => (final, .ok (release.artifacts.map Artifact.path))

/-- The changes that are made while artifacts are written under their staging
    names, and to discard them when one cannot be written. -/
def stagingPerformed (store : Store) (written : List Path) : List Artifact → List Operation
  | [] => []
  | artifact :: more =>
    Step.performed store artifact.staging ++
      match Step.runAll store artifact.staging with
      | (_, some _) => written.map .remove
      | (after, none) => stagingPerformed after (written ++ [artifact.staged]) more

/-- The changes that a release makes, in their order. -/
def performed (release : Release) (store : Store) : List Operation :=
  stagingPerformed store [] release.artifacts ++
    match stage store [] release.artifacts with
    | (_, some _) => []
    | (after, none) =>
      Step.performed after
        (release.promotion ++ release.retirement (previousOrder store release.directory))

end Release

end PuzzleLevel
