import PuzzleLevel.Config.Decoding
import PuzzleLevel.Store.Access

/-!
# Finding and Loading a Configuration

A configuration is found in the nearest directory at or above the one that a
search starts from. Without one, a project has the defaults and is named after
the directory it is in.

## Main definitions

* `configFileName`: The name of the file.
* `Store.findConfig?`: The nearest configuration file.
* `Store.loadConfig`: The configuration in a file.
* `Store.nearestConfig`: The configuration that applies in a directory.
-/

namespace PuzzleLevel

def configFileName : String := "levels.toml"

/-- The configuration of a project without a configuration file, named after the
    directory it is in. -/
def Config.named (directory : Path) : Config :=
  match directory.fileName? with
  | some name => { name }
  | none => {}

namespace Store

/-- The configuration file nearest to a directory. -/
def findConfig? (store : Store) (directory : Path) : Option Path :=
  store.search? directory configFileName

def loadConfig (store : Store) (file : Path) : Except ConfigError Config :=
  match store.readText file with
  | .error fault => .error (.unreadable fault)
  | .ok text => Config.parse text.toList

/-- The configuration that applies in a directory. -/
def nearestConfig (store : Store) (directory : Path) : Except ConfigError Config :=
  match store.findConfig? directory with
  | some file => store.loadConfig file
  | none => .ok (.named directory)

end Store

end PuzzleLevel
