import PuzzleLevel.Assembly
import PuzzleLevel.Path
import PuzzleLevel.Source
import PuzzleLevel.Store.Fault

/-!
# Compiling a Level Text

A level text is cut into its sections, its legend is bound to its map, and the
map is assembled into a level. A legend entry that can have no effect earns a
warning: its symbol has a fixed meaning, or does not stand in the map. Strict
compilation refuses a level with warnings, but only after everything else about
it was found good.

## Main definitions

* `CompileOptions`: The start marker and the strictness.
* `Warning`: A legend entry without effect.
* `CompileError`: Why a file gives no level.
* `Compiled`: A level with its legend and warnings.
* `compile`: Compiles a text.
-/

namespace PuzzleLevel

/-- How a level is compiled. -/
structure CompileOptions where
  startMarker : Char := 'S'
  /-- Whether a warning is an error. -/
  strict : Bool := false
  deriving DecidableEq, Repr

/-- A legend entry that can have no effect. -/
inductive Warning where
  /-- The symbol has a fixed meaning. -/
  | builtin (line : Nat) (symbol : Char)
  /-- The symbol does not stand in the map. -/
  | unused (line : Nat) (symbol : Char)
  deriving DecidableEq, Repr

namespace Warning

def message : Warning → String
  | builtin line symbol =>
    "line " ++ toString line ++ ": legend symbol '" ++ symbol.toString ++
      "' is a built-in tile and will be ignored"
  | unused line symbol =>
    "line " ++ toString line ++ ": legend symbol '" ++ symbol.toString ++
      "' does not appear in the map"

/-- The warning that an entry earns, if any. -/
def ofEntry? (classifier : Classifier) (rows : List (List Char)) (entry : LegendEntry) :
    Option Warning :=
  -- A symbol with a fixed meaning earns this warning even if it is not in the map.
  if classifier.isBuiltin entry.symbol then some (builtin entry.line entry.symbol)
  else if rows.any fun row => row.contains entry.symbol then none
  else some (unused entry.line entry.symbol)

end Warning

/-- The warnings that the entries of a legend earn, in the order of their lines. -/
def warnings (classifier : Classifier) (rows : List (List Char)) : List Warning :=
  classifier.legend.entries.filterMap (Warning.ofEntry? classifier rows)

/-- Why a file gives no level. -/
inductive CompileError where
  | unreadable (path : Path) (fault : FileFault)
  | legend (error : LegendError)
  | start (error : StartError)
  /-- The level has warnings, and none are allowed. -/
  | strict (warnings : List Warning)
  deriving DecidableEq, Repr

namespace CompileError

def message : CompileError → String
  | unreadable path fault => "failed to read " ++ path.text ++ ": " ++ fault.message
  | legend (.line number fault) => "legend line " ++ toString number ++ ": " ++ fault.message
  | legend (.reference error) => error.message
  | start error => error.message
  | strict warnings => "strict mode: " ++ "; ".intercalate (warnings.map Warning.message)

/-- The short name of the kind of an error. -/
def kind : CompileError → String
  | unreadable .. => "filesystem"
  | legend (.line ..) => "format"
  | legend (.reference ..) => "reference"
  | start (.missing ..) => "missing_start"
  | start (.ambiguous ..) => "ambiguous_start"
  | strict .. => "strict"

end CompileError

/-- A compiled level, with what is needed to draw it. -/
structure Compiled where
  level : Level
  legend : Legend
  warnings : List Warning
  deriving DecidableEq, Repr

/-- Compiles the sections of a level. -/
def Source.compile (source : Source) (options : CompileOptions) : Except CompileError Compiled :=
  match Legend.resolve source.rows source.legend with
  | .error error => .error (.legend error)
  | .ok legend =>
    let classifier : Classifier := ⟨legend, options.startMarker⟩
    match assemble classifier source.rows with
    | .error error => .error (.start error)
    | .ok level =>
      -- Strictness is judged last, so it never hides another error.
      let found := warnings classifier source.rows
      if options.strict && !found.isEmpty then .error (.strict found)
      else .ok { level, legend, warnings := found }

def compile (text : List Char) (options : CompileOptions) : Except CompileError Compiled :=
  (Source.ofText text).compile options

end PuzzleLevel
