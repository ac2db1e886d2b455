import PuzzleLevel.Duration
import PuzzleLevel.Level
import PuzzleLevel.Path

/-!
# Build Reports

What a build has to say about its level files: for each of them, in the order of
discovery, the level it gave or the reason it gave none, together with its
warnings; and the files that were written in the end.

A build succeeds when no file failed. The summary names every failure but shows
no more than a few warnings, and says how many it leaves out.

## Main definitions

* `Outcome`: A level, or the reason for none.
* `LevelReport`: The outcome of one file.
* `BuildReport`: The outcomes of all files.
* `BuildReport.index?`: The index of the levels of a build, with their
  identifiers.
* `BuildReport.summary`: A build in a few lines.
-/

namespace PuzzleLevel

/-- What became of a level file. -/
inductive Outcome where
  | compiled (level : Level)
  | failed (reason : String)
  deriving DecidableEq, Repr

namespace Outcome

def isSuccess : Outcome → Bool
  | compiled _ => true
  | failed _ => false

def level? : Outcome → Option Level
  | compiled level => some level
  | failed _ => none

def text : Outcome → String
  | compiled _ => "success"
  | failed reason => "failed: " ++ reason

end Outcome

/-- The outcome of one level file. -/
structure LevelReport where
  id : String
  path : Path
  outcome : Outcome
  warnings : List String := []
  duration : Duration := .zero
  deriving DecidableEq, Repr

namespace LevelReport

def isSuccess (report : LevelReport) : Bool :=
  report.outcome.isSuccess

/-- The warnings, each with the identifier of the level in front. -/
def labelledWarnings (report : LevelReport) : List String :=
  report.warnings.map fun warning => report.id ++ ": " ++ warning

/-- A failed file as a line of the summary. -/
def summaryLine (report : LevelReport) : String :=
  "  - " ++ report.id ++ " (" ++ report.path.text ++ "): " ++ report.outcome.text

end LevelReport

/-- The outcome of a build. -/
structure BuildReport where
  /-- The outcomes of the files, in the order of discovery. -/
  levels : List LevelReport := []
  /-- The files that were written. -/
  outputs : List Path := []
  duration : Duration := .zero
  deriving DecidableEq, Repr

namespace BuildReport

def add (report : BuildReport) (level : LevelReport) : BuildReport :=
  { report with levels := report.levels ++ [level] }

def successCount (report : BuildReport) : Nat :=
  (report.levels.filter LevelReport.isSuccess).length

def failures (report : BuildReport) : List LevelReport :=
  report.levels.filter fun level => !level.isSuccess

def failedCount (report : BuildReport) : Nat :=
  report.failures.length

def isSuccess (report : BuildReport) : Bool :=
  report.failedCount = 0

/-- All warnings, in the order of the files. -/
def allWarnings (report : BuildReport) : List String :=
  report.levels.flatMap LevelReport.labelledWarnings

/-- The levels of a build with their identifiers. -/
def compiledLevels (report : BuildReport) : List (String × Level) :=
  report.levels.filterMap fun level => level.outcome.level?.map fun l => (level.id, l)

/-- The identifiers of the levels of a build and their index, unless there is no
    level. -/
def index? (report : BuildReport) : Option (List String × LevelIndex) :=
  (LevelIndex.ofLevels? (report.compiledLevels.map Prod.snd)).map fun index =>
    (report.compiledLevels.map Prod.fst, index)

def headline (report : BuildReport) : String :=
  if report.isSuccess then
    "Build succeeded: " ++ toString report.levels.length ++ " levels compiled in " ++
      report.duration.text
  else
    "Build failed: " ++ toString report.successCount ++ " compiled, " ++
      toString report.failedCount ++ " failed (" ++ toString report.levels.length ++ " total)"

/-- The number of warnings that a summary shows. -/
def shownWarnings : Nat := 5

/-- The lines of a summary about warnings. -/
def warningLines (warnings : List String) : List String :=
  if warnings.isEmpty then []
  else
    -- The line ends in a blank.
    ("Warnings (" ++ toString warnings.length ++ "): ") ::
      (warnings.take shownWarnings).map (fun warning => "  - " ++ warning) ++
      if shownWarnings < warnings.length then
        ["  ... and " ++ toString (warnings.length - shownWarnings) ++ " more"]
      else []

def summaryLines (report : BuildReport) : List String :=
  report.headline :: report.failures.map LevelReport.summaryLine ++ warningLines report.allWarnings

/-- A build in a few lines. -/
def summary (report : BuildReport) : String :=
  "\n".intercalate report.summaryLines

end BuildReport

end PuzzleLevel
