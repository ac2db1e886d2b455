import PuzzleLevel.Build
import PuzzleLevel.CommandLine.Arguments
import PuzzleLevel.Config.Loading
import PuzzleLevel.Drawing
import PuzzleLevel.Progress.Console
import PuzzleLevel.Progress.Lines

/-!
# Running a Command

What the program prints and leaves behind for a list of arguments. The store and
the machine are given, so a run is a function of them; printing and the real
files are left to the outermost layer.

A run ends with one of three codes: zero when all is well, one when a level or
the build failed, and two when the arguments or the configuration are wrong.

Paths in the arguments of a build are relative to the working directory. Paths in
a configuration are relative to the directory of its file, or to the working
directory when there is no file.

## Main definitions

* `Response`: What a run prints and leaves behind.
* `Store.projectAt`: The project that a run is about.
* `runBuild`, `runCheck`, `runDraw`: The commands.
* `Command.configFiles`, `Command.reads`: What a command looks at.
* `run`: The response to a list of arguments.
-/

namespace PuzzleLevel

/-- What a run prints and leaves behind. -/
structure Response where
  exitCode : Nat
  /-- What is printed as the result. -/
  output : String := ""
  /-- What is printed besides. -/
  diagnostics : String := ""
  store : Store
  /-- The changes that were made to the store, in their order. -/
  operations : List Operation := []

/-- The exit code when all is well. -/
def exitSuccess : Nat := 0

/-- The exit code when a level or the build failed. -/
def exitFailure : Nat := 1

/-- The exit code when the arguments or the configuration are wrong. -/
def exitMisuse : Nat := 2

def versionLine : String := "lvl 0.1.0\n"

/-- What is printed for arguments that are rejected. -/
def usageText : String :=
  "error: invalid arguments\n\nUsage: lvl build [SRC] [OUT] [OPTIONS]\n" ++
    "       lvl check <FILES>... [OPTIONS]\n       lvl show <FILE> [OPTIONS]\n"

namespace Store

def workingDirectory (store : Store) : Path :=
  ⟨'/' :: Path.joinSegments store.here⟩

/-- The directory that a configuration file is for: the one that its path names,
    or the working directory. -/
def rootOf (store : Store) (file : Path) : Path :=
  match file.parent? with
  | some parent => if parent.chars.isEmpty then store.workingDirectory else parent
  | none => store.workingDirectory

/-- The project that a run is about, or what is said when its configuration does
    not load. A configuration file that is asked for must be there; otherwise the
    nearest one counts. -/
def projectAt (store : Store) (explicit : Option Path) : Except String Project :=
  match explicit <|> store.findConfig? store.workingDirectory with
  | some file =>
    match store.loadConfig file with
    | .error error => .error (file.text ++ ": " ++ error.message)
    | .ok config => .ok ⟨config, store.rootOf file⟩
  | none => .ok ⟨.named store.workingDirectory, store.workingDirectory⟩

end Store

def asLine (text : String) : String := text ++ "\n"

def asLines (texts : List String) : String := String.join (texts.map asLine)

namespace BuildArguments

/-- The settings that the arguments of a build replace. -/
def overrides (arguments : BuildArguments) (here : Path) : Overrides :=
  { source := arguments.source.map here.join
    output := arguments.output.map here.join
    strict := if arguments.strict then some true else none
    jobs := arguments.jobs }

/-- The events of a build, as the arguments ask to see them. -/
def transcript (arguments : BuildArguments) (colors : Bool) (events : List Event) : String :=
  if arguments.json then Event.transcript events
  else ({ colors, verbose := arguments.verbose } : Console).transcript events

/-- What is printed before a dry run. -/
def announcement (arguments : BuildArguments) (project : Project) : String :=
  if arguments.dryRun && !arguments.json then
    asLines ["Dry run - would build:", "  Source: " ++ project.sourceDirectory.text,
      "  Output: " ++ project.outputDirectory.text]
  else ""

/-- What is printed about the levels or files of a build. -/
def listing (arguments : BuildArguments) (report : BuildReport) : String :=
  if arguments.dryRun then
    asLines (("  Levels: " ++ toString report.levels.length) ::
      report.levels.map fun level => "    - " ++ level.id ++ " (" ++ level.outcome.text ++ ")")
  else if arguments.verbose then
    asLines (report.outputs.map fun output => "  wrote " ++ output.text)
  else ""

end BuildArguments

/-- Whether an error was told while the build ran. -/
def BuildError.wasTold : BuildError → Bool
  | .discovery _ => true
  | .noLevels _ => true
  | _ => false

/-- All events of a build, with the error that ended it. -/
def Build.allEvents (build : Build) : List Event :=
  match build.result with
  | .ok _ => build.events
  | .error error =>
    if error.wasTold then build.events else build.events ++ [.error none error.message]

/-- What is printed when a build has no report because there is no directory of
    level files. -/
def BuildArguments.hint (arguments : BuildArguments) (project : Project) (store : Store) : String :=
  if arguments.json || store.isDirectory project.sourceDirectory then ""
  else asLine "Create the directory or pass a different source directory"

/-- Builds a project whose configuration is settled. -/
def runProject (arguments : BuildArguments) (machine : Machine) (colors : Bool) (store : Store)
    (project : Project) (preface : String) : Response :=
  let build := project.build machine arguments.dryRun store
  let announced := arguments.announcement project
  let told := preface ++ arguments.transcript colors build.allEvents
  let operations := ((build.release.map fun release => release.performed store).getD [])
  match build.result with
  | .ok report =>
    let exitCode := if report.isSuccess then exitSuccess else exitFailure
    if arguments.json then
      { exitCode, output := announced, diagnostics := told, store := build.store, operations }
    else if report.isSuccess then
      { exitCode, output := announced ++ arguments.listing report ++ asLine report.summary
        diagnostics := told, store := build.store, operations }
    else
      { exitCode, output := announced ++ arguments.listing report
        diagnostics := told ++ asLine report.summary, store := build.store, operations }
  | .error _ =>
    { exitCode := exitFailure, output := announced
      diagnostics := told ++ arguments.hint project build.store, store := build.store, operations }

/-- Builds the project of the working directory. -/
def runBuild (arguments : BuildArguments) (machine : Machine) (colors : Bool) (store : Store) :
    Response :=
  match store.projectAt arguments.config with
  | .error reason =>
    { exitCode := exitMisuse, diagnostics := asLine ("Error loading config: " ++ reason), store }
  | .ok found =>
    let preface :=
      if arguments.verbose && !arguments.json then asLine ("Project root: " ++ found.root.text)
      else ""
    match (found.config.override (arguments.overrides store.workingDirectory)).validated with
    | .error error =>
      { exitCode := exitMisuse, diagnostics := preface ++ asLine ("Error: " ++ error.message), store }
    | .ok config => runProject arguments machine colors store ⟨config, found.root⟩ preface

/-- The options for compiling single files: those of the project, with what the
    arguments replace. -/
def Store.fileOptions (store : Store) (strict : Bool) (startMarker : Option Char) :
    Except String CompileOptions :=
  match store.projectAt none with
  | .error reason => .error reason
  | .ok project =>
    let config :=
      { project.config with
        startMarker := startMarker.getD project.config.startMarker
        strict := strict || project.config.strict }
    match config.validated with
    | .error error => .error error.message
    | .ok config => .ok config.compileOptions

/-- What is printed about a file that gives no level. -/
def CompileError.report (error : CompileError) (file : Path) : String :=
  asLine (file.text ++ ": error[" ++ error.kind ++ "]: " ++ error.message)

/-- What is printed about a file that gives a level. -/
def Compiled.report (compiled : Compiled) (file : Path) : String :=
  asLines
    ((file.text ++ ": ok (" ++ toString compiled.level.width ++ "x" ++
        toString compiled.level.height ++ ", start " ++ compiled.level.start.text ++ ")") ::
      compiled.warnings.map fun warning => "  warning: " ++ warning.message)

/-- What is printed about a file that gives a level, if it does. -/
def reportIfOk (file : Path) : Except CompileError Compiled → String
  | .ok compiled => compiled.report file
  | .error _ => ""

/-- What is printed about a file that gives no level, if it does not. -/
def reportIfError (file : Path) : Except CompileError Compiled → String
  | .ok _ => ""
  | .error error => error.report file

def isFailure : Except CompileError Compiled → Bool
  | .ok _ => false
  | .error _ => true

/-- Compiles files and tells how they went. -/
def runCheck (files : List Path) (strict : Bool) (startMarker : Option Char) (store : Store) :
    Response :=
  match store.fileOptions strict startMarker with
  | .error reason =>
    { exitCode := exitMisuse, diagnostics := asLine ("Error: " ++ reason), store }
  | .ok options =>
    -- Good files are told on one channel and bad ones on the other, each in order.
    let results := files.map fun file => (file, compileFile store file options)
    let output := String.join (results.map fun (file, result) => reportIfOk file result)
    let diagnostics := String.join (results.map fun (file, result) => reportIfError file result)
    let failed := (results.filter fun (_, result) => isFailure result).length
    if failed = 0 then { exitCode := exitSuccess, output, diagnostics, store }
    else
      { exitCode := exitFailure, output, store
        diagnostics := diagnostics ++
          asLine (toString failed ++ " of " ++ toString files.length ++ " files failed") }

/-- A level as it is shown: the drawing, and the legend below it if it defines
    anything. -/
def Compiled.picture (compiled : Compiled) (marker : Char) : String :=
  compiled.level.drawing compiled.legend marker ++
    if compiled.legend.entries.isEmpty then "" else "\n" ++ compiled.legend.description

/-- Compiles one file and shows the level. -/
def runDraw (file : Path) (json : Bool) (startMarker : Option Char) (store : Store) : Response :=
  match store.fileOptions false startMarker with
  | .error reason =>
    { exitCode := exitMisuse, diagnostics := asLine ("Error: " ++ reason), store }
  | .ok options =>
    match compileFile store file options with
    | .error error => { exitCode := exitFailure, diagnostics := error.report file, store }
    | .ok compiled =>
      if json then
        { exitCode := exitSuccess, output := compiled.level.toJson.indented, store }
      else
        { exitCode := exitSuccess, output := compiled.picture options.startMarker, store
          diagnostics :=
            asLines (compiled.warnings.map fun warning => "warning: " ++ warning.message) }

/-- The configuration files that a command may read in a directory. -/
def Command.configFiles (command : Command) (here : Path) : List Path :=
  match command with
  | .build { config := some file, .. } => [file]
  | _ => here.ancestors.map fun above => above.child configFileName

/-- The project that a build is about, with the settings of its arguments. -/
def BuildArguments.project? (arguments : BuildArguments) (store : Store) : Option Project :=
  match store.projectAt arguments.config with
  | .error _ => none
  | .ok found =>
    some ⟨found.config.override (arguments.overrides store.workingDirectory), found.root⟩

/-- The files that a command reads, and the directories that it looks into, once
    its configuration is known. -/
def Command.reads (command : Command) (store : Store) : List Path :=
  match command with
  | .build arguments =>
    match arguments.project? store with
    | some project => [project.sourceDirectory, project.outputDirectory]
    | none => []
  | .check files _ _ => files
  | .draw file _ _ => [file]

def Command.run (command : Command) (machine : Machine) (colors : Bool) (store : Store) :
    Response :=
  match command with
  | .build arguments => runBuild arguments machine colors store
  | .check files strict startMarker => runCheck files strict startMarker store
  | .draw file json startMarker => runDraw file json startMarker store

/-- The response to a list of arguments. -/
def run (args : List String) (machine : Machine) (colors : Bool) (store : Store) : Response :=
  match Invocation.ofArguments args with
  | .version => { exitCode := exitSuccess, output := versionLine, store }
  | .rejected => { exitCode := exitMisuse, diagnostics := usageText, store }
  | .command command => command.run machine colors store

end PuzzleLevel
