import PuzzleLevel.Config.Basic
import PuzzleLevel.Discovery
import PuzzleLevel.Progress.Event
import PuzzleLevel.Release

/-!
# Building a Project

A build finds the level files of a project, compiles every one of them, and when
none failed releases the levels and their index. It stops early only when there
is nothing to compile; a file that fails does not keep the others from being
compiled and reported, it only keeps everything from being released. A dry run
stops before the release.

Files are compiled by several workers at once, but what comes out does not depend
on them: the outcomes are collected in the order of discovery. Only the order in
which the starts are told, the time things take, and whether there are any
workers is up to the machine, so a build is given a machine that decides these.

## Main definitions

* `Machine`: What the machine decides.
* `BuildError`: Why a build has no report.
* `compileFile`: Compiles a file.
* `Build`: The outcome of a build: the store it leaves, what it told, and its
  report or error.
* `Project.build`: Builds a project.
-/

namespace PuzzleLevel

/-- What the machine decides about a build. -/
structure Machine where
  /-- The order in which the workers start on the files. -/
  starts : List LevelFile → List LevelFile := id
  /-- Every file is started once. -/
  starts_perm : ∀ files, (starts files).Perm files := by exact fun _ => List.Perm.refl _
  levelTime : LevelFile → Duration := fun _ => .zero
  totalTime : Duration := .zero
  /-- Why there are no workers, if there are none. -/
  poolFault : Option String := none

/-- Why a build has no report. -/
inductive BuildError where
  | discovery (error : DiscoveryError)
  | noLevels (source : Path)
  | noIndex
  | noWorkers (reason : String)
  | output (error : OutputError)
  deriving DecidableEq, Repr

namespace BuildError

def message : BuildError → String
  | discovery error => "Discovery error: " ++ error.message
  | noLevels source => "No level files found in " ++ source.text
  | noIndex => "Index error: " ++ LevelIndex.noLevelsMessage
  | noWorkers reason => "Failed to start worker pool: " ++ reason
  | output error => "Output error: " ++ error.message

end BuildError

def compileFile (store : Store) (path : Path) (options : CompileOptions) :
    Except CompileError Compiled :=
  match store.readText path with
  | .error fault => .error (.unreadable path fault)
  | .ok text => compile text.toList options

namespace LevelReport

def ofResult (file : LevelFile) (duration : Duration) :
    Except CompileError Compiled → LevelReport
  | .ok compiled =>
    { id := file.id, path := file.path, outcome := .compiled compiled.level,
      warnings := compiled.warnings.map Warning.message, duration }
  | .error error =>
    { id := file.id, path := file.path, outcome := .failed error.message, duration }

/-- The events that tell how a file went. -/
def events (report : LevelReport) : List Event :=
  report.warnings.map (fun warning => .warning (some report.id) warning) ++
    [.levelCompleted report.id report.outcome.status report.duration.milliseconds]

end LevelReport

/-- The outcome of a build. -/
structure Build where
  store : Store
  /-- What was released, or was to be released. -/
  release : Option Release := none
  events : List Event
  result : Except BuildError BuildReport

namespace Project

/-- The level files of a project, of which there is at least one. -/
def levelFiles (project : Project) (store : Store) : Except BuildError (List LevelFile) :=
  match store.discover project.sourceDirectory project.config.extensions with
  | .error error => .error (.discovery error)
  | .ok [] => .error (.noLevels project.sourceDirectory)
  | .ok (first :: more) => .ok (first :: more)

/-- The reports of all files, in their order. -/
def compileAll (project : Project) (machine : Machine) (store : Store) (files : List LevelFile) :
    List LevelReport :=
  files.map fun file =>
    .ofResult file (machine.levelTime file)
      (compileFile store file.path project.config.compileOptions)

/-- What is to be released for the levels of a report, unless there are none. -/
def release? (project : Project) (report : BuildReport) : Option Release :=
  report.index?.map fun (order, index) => { directory := project.outputDirectory, order, index }

/-- What is to be released at the end of a build: nothing when a file failed or
    the run is dry, and an error when there is no level. -/
def due (project : Project) (dryRun : Bool) (report : BuildReport) :
    Except BuildError (Option Release) :=
  if report.isSuccess && !dryRun then
    match project.release? report with
    | none => .error .noIndex
    | some release => .ok (some release)
  else .ok none

def completed (report : BuildReport) : Event :=
  .buildCompleted report.isSuccess report.duration.milliseconds report.successCount
    report.failedCount

/-- What a build tells while its files are compiled. -/
def told (machine : Machine) (files : List LevelFile) (levels : List LevelReport) : List Event :=
  .buildStarted files.length ::
    (machine.starts files).map (fun file => .levelStarted file.id) ++
    levels.flatMap LevelReport.events

/-- The end of a build that has told `events`: releases what is due. -/
def finish (project : Project) (dryRun : Bool) (store : Store) (events : List Event)
    (report : BuildReport) : Build :=
  match project.due dryRun report with
  -- A build that ends in an error does not tell its end; whoever asked for it does.
  | .error error => { store, events, result := .error error }
  | .ok none => { store, events := events ++ [completed report], result := .ok report }
  | .ok (some release) =>
    match release.run store with
    | (after, .error error) =>
      { store := after, release := some release, events, result := .error (.output error) }
    | (after, .ok outputs) =>
      { store := after, release := some release, events := events ++ [completed report],
        result := .ok { report with outputs } }

def build (project : Project) (machine : Machine) (dryRun : Bool) (store : Store) : Build :=
  match project.levelFiles store with
  | .error error => { store, events := [.error none error.message], result := .error error }
  | .ok files =>
    -- The number of files is told before the workers are called.
    match machine.poolFault with
    | some reason =>
      { store, events := [.buildStarted files.length], result := .error (.noWorkers reason) }
    | none =>
      let levels := project.compileAll machine store files
      project.finish dryRun store (told machine files levels)
        { levels, duration := machine.totalTime }

end Project

end PuzzleLevel
