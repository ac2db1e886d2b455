import PuzzleLevel.Classifier
import PuzzleLevel.Compile
import PuzzleLevel.Path

/-!
# Project Configuration

What a project can set: its name, the directory of its level files, the
directory of its artifacts, the start marker, the extensions of level files,
strictness, and the number of workers. Everything has a default, so a project
needs no configuration at all.

A configuration is judged as a whole and every problem is reported. The marker
must be visible and must not be a character with another meaning; the dash is
refused as well, since rows of dashes look like the line between the sections.
An extension must be bare, because it is compared with the end of a file name.

## Main definitions

* `Config`: The settings of a project.
* `Config.problems`: What is wrong with them.
* `Overrides`, `Config.override`: Settings from the command line.
* `ConfigError`: Why there is no configuration.
* `Project`: A configuration in the place it applies to.
-/

namespace PuzzleLevel

/-- The settings of a project. -/
structure Config where
  name : String := "levels"
  source : Path := .ofString "levels"
  output : Path := .ofString "build/levels"
  startMarker : Char := 'S'
  /-- The extensions of level files, without their dots. -/
  extensions : List String := ["txt"]
  strict : Bool := false
  /-- The number of workers; zero leaves it to the machine. -/
  jobs : Nat := 0
  deriving DecidableEq, Repr

/-- What can be wrong with the settings of a project. -/
inductive ConfigProblem where
  /-- The start marker has another meaning, or cannot be seen. -/
  | startMarker (marker : Char)
  | noExtensions
  | extension (given : String)
  deriving DecidableEq, Repr

namespace ConfigProblem

def field : ConfigProblem → String
  | startMarker _ => "format.start_marker"
  | noExtensions => "format.extensions"
  | extension _ => "format.extensions"

def message : ConfigProblem → String
  | startMarker marker => "'" ++ marker.toString ++ "' collides with a built-in map symbol"
  | noExtensions => "must list at least one extension"
  | extension given => "'" ++ given ++ "' must be a bare extension such as \"txt\""

def text (problem : ConfigProblem) : String :=
  "levels.toml: '" ++ problem.field ++ "' " ++ problem.message

end ConfigProblem

namespace Config

/-- Whether a character can mark the starting position. -/
def isMarker (c : Char) : Bool :=
  !builtinSymbols.contains c && c ≠ '-' && !Text.isBlank c

/-- Whether an extension is bare: something, not starting with a dot, and free of
    what separates or matches names. -/
def isBareExtension (extension : String) : Bool :=
  let cs := extension.toList
  !cs.isEmpty && cs.head? ≠ some '.' && !cs.any fun c => c = '/' || c = '\\' || c = '*'

def problems (config : Config) : List ConfigProblem :=
  (if isMarker config.startMarker then [] else [.startMarker config.startMarker]) ++
    (if config.extensions.isEmpty then [.noExtensions] else []) ++
    (config.extensions.filter fun e => !isBareExtension e).map .extension

def isValid (config : Config) : Bool :=
  config.problems.isEmpty

def compileOptions (config : Config) : CompileOptions :=
  ⟨config.startMarker, config.strict⟩

end Config

/-- Settings that replace those of a configuration. -/
structure Overrides where
  source : Option Path := none
  output : Option Path := none
  strict : Option Bool := none
  jobs : Option Nat := none

/-- The configuration with some of its settings replaced. -/
def Config.override (config : Config) (overrides : Overrides) : Config :=
  { config with
    source := overrides.source.getD config.source
    output := overrides.output.getD config.output
    strict := overrides.strict.getD config.strict
    jobs := overrides.jobs.getD config.jobs }

/-- Why there is no configuration. -/
inductive ConfigError where
  | unreadable (fault : FileFault)
  | malformed
  | invalid (problems : List ConfigProblem)
  deriving DecidableEq, Repr

namespace ConfigError

def message : ConfigError → String
  | unreadable fault => "Failed to read config: " ++ fault.message
  | malformed => "Failed to parse levels.toml: the file is not a project configuration"
  | invalid problems =>
    "Config validation failed:\n" ++
      "\n".intercalate (problems.map fun problem => "  - " ++ problem.text)

end ConfigError

/-- The configuration, unless something is wrong with it. -/
def Config.validated (config : Config) : Except ConfigError Config :=
  if config.isValid then .ok config else .error (.invalid config.problems)

/-- A configuration in the directory that its paths are relative to. -/
structure Project where
  config : Config
  root : Path
  deriving DecidableEq, Repr

namespace Project

def sourceDirectory (project : Project) : Path :=
  project.root.join project.config.source

def outputDirectory (project : Project) : Path :=
  project.root.join project.config.output

def withStrict (project : Project) (strict : Bool) : Project :=
  { project with config := { project.config with strict } }

/-- The number of workers, unless it is left to the machine. -/
def workers? (project : Project) : Option Nat :=
  if project.config.jobs = 0 then none else some project.config.jobs

end Project

end PuzzleLevel
