import Mathlib.Logic.Relation
import PuzzleLevel.Build

/-!
# Workers at a Build

A build seen while it is under way. The build itself goes through a few stages, one after
the other, and while it waits for its level files to be compiled any number of workers are
at them. A worker takes a file that nobody has, tells its start, compiles it, leaves the
report in the place of the file, and is free for another one. Nothing says which worker
moves next, which file it takes, or how long anything lasts; a file may be taken before
another one and its start be told after that of the other.

What is told goes into one log, a single event at a time, whoever tells it. The build goes on
when every file has its report, and then it takes them in the order of the files.

## Main definitions

* `Task`: How far a level file has come.
* `Stage`: What the build itself is at.
* `BuildState`: A build under way.
* `Project.Proceeds`: What can happen next.
* `Project.Reaches`: What a build can come to from its beginning.
-/

namespace PuzzleLevel

/-- How far a level file has come. -/
inductive Task where
  | waiting
  /-- A worker has taken it and not told its start. -/
  | taken (worker : Nat)
  /-- Its start is told and it is being compiled. -/
  | running (worker : Nat)
  | done (report : LevelReport)
  deriving DecidableEq, Repr

namespace Task

/-- The worker that is busy with a file. -/
def worker? : Task → Option Nat
  | taken worker => some worker
  | running worker => some worker
  | _ => none

/-- Whether the start of a file is told. -/
def isStarted : Task → Bool
  | running _ => true
  | done _ => true
  | _ => false

def report? : Task → Option LevelReport
  | done report => some report
  | _ => none

end Task

/-- What a build itself is at. -/
inductive Stage where
  | discovering
  /-- The number of files is told, and workers are called for. -/
  | hiring (files : List LevelFile)
  /-- The workers have the files. -/
  | waiting
  /-- All reports are there, and the given events remain to be told of them. -/
  | telling (levels : List LevelReport) (pending : List Event)
  | ended (result : Except BuildError BuildReport)

/-- A build under way. -/
structure BuildState where
  stage : Stage := .discovering
  /-- The level files in their order, once there are workers. -/
  tasks : List (LevelFile × Task) := []
  /-- What is told so far. -/
  log : List Event := []
  store : Store

namespace Project

/-- What can happen next in a build with the given number of workers. -/
inductive Proceeds (project : Project) (workers : Nat) (dryRun : Bool) :
    BuildState → BuildState → Prop
  | undiscovered {s : BuildState} {error : BuildError} (hstage : s.stage = .discovering)
      (hfiles : project.levelFiles s.store = .error error) :
      Proceeds project workers dryRun s
        { s with stage := .ended (.error error), log := s.log ++ [.error none error.message] }
  | discovered {s : BuildState} {files : List LevelFile} (hstage : s.stage = .discovering)
      (hfiles : project.levelFiles s.store = .ok files) :
      Proceeds project workers dryRun s
        { s with stage := .hiring files, log := s.log ++ [.buildStarted files.length] }
  | unhired {s : BuildState} {files : List LevelFile} {reason : String}
      (hstage : s.stage = .hiring files) :
      Proceeds project workers dryRun s { s with stage := .ended (.error (.noWorkers reason)) }
  | hired {s : BuildState} {files : List LevelFile} (hstage : s.stage = .hiring files) :
      Proceeds project workers dryRun s
        { s with stage := .waiting, tasks := files.map fun file => (file, .waiting) }
  /-- A worker who is free takes a file that nobody has. -/
  | takes {s : BuildState} {before after : List (LevelFile × Task)} {file : LevelFile}
      {worker : Nat} (htasks : s.tasks = before ++ (file, .waiting) :: after)
      (hworker : worker < workers) (hfree : ∀ entry ∈ s.tasks, entry.2.worker? ≠ some worker) :
      Proceeds project workers dryRun s
        { s with tasks := before ++ (file, .taken worker) :: after }
  | starts {s : BuildState} {before after : List (LevelFile × Task)} {file : LevelFile}
      {worker : Nat} (htasks : s.tasks = before ++ (file, .taken worker) :: after) :
      Proceeds project workers dryRun s
        { s with
          tasks := before ++ (file, .running worker) :: after
          log := s.log ++ [.levelStarted file.id] }
  /-- The worker is free again when the report is in its place. -/
  | delivers {s : BuildState} {before after : List (LevelFile × Task)} {file : LevelFile}
      {worker : Nat} {duration : Duration}
      (htasks : s.tasks = before ++ (file, .running worker) :: after) :
      Proceeds project workers dryRun s
        { s with
          tasks := before ++ (file, .done (.ofResult file duration
            (compileFile s.store file.path project.config.compileOptions))) :: after }
  /-- The build waits until every file has its report. -/
  | collects {s : BuildState} {levels : List LevelReport} (hstage : s.stage = .waiting)
      (hlevels : s.tasks.map (fun entry => entry.2.report?) = levels.map some) :
      Proceeds project workers dryRun s
        { s with stage := .telling levels (levels.flatMap LevelReport.events) }
  | tells {s : BuildState} {levels : List LevelReport} {event : Event} {pending : List Event}
      (hstage : s.stage = .telling levels (event :: pending)) :
      Proceeds project workers dryRun s
        { s with stage := .telling levels pending, log := s.log ++ [event] }
  | finishes {s : BuildState} {levels : List LevelReport} {duration : Duration}
      (hstage : s.stage = .telling levels []) :
      Proceeds project workers dryRun s
        { s with
          stage := .ended (project.finish dryRun s.store s.log { levels, duration }).result
          log := (project.finish dryRun s.store s.log { levels, duration }).events
          store := (project.finish dryRun s.store s.log { levels, duration }).store }

/-- What a build with the given number of workers can come to from its beginning. -/
def Reaches (project : Project) (workers : Nat) (dryRun : Bool) (before : Store) :
    BuildState → Prop :=
  Relation.ReflTransGen (project.Proceeds workers dryRun) { store := before }

end Project

end PuzzleLevel
