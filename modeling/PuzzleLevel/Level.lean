import PuzzleLevel.Tile

/-!
# Levels and the Level Index

A level is a grid of tiles, row by row, and the position at which play starts.
A grid made from a map has rows of one length, but the type does not ask for it:
a level can also be read from a document, where rows may differ.

The index is the order of play. It always holds a first level, so the type does
too, and an empty list of levels has no index.

## Main definitions

* `Level`: A grid and a starting position.
* `Level.tile`: The tile at a position, empty outside the grid.
* `LevelIndex`: The levels of a game in their order of play.
* `LevelIndex.ofLevels?`: The index of a list of levels.
-/

namespace PuzzleLevel

/-- A playable level. -/
structure Level where
  tiles : List (List Tile)
  start : Position
  deriving DecidableEq, Repr

namespace Level

def height (level : Level) : Nat :=
  level.tiles.length

/-- The number of columns, taken from the first row. -/
def width (level : Level) : Nat :=
  (level.tiles.head?.map List.length).getD 0

/-- The tile at a position. Everything outside the grid is empty. -/
def tile (level : Level) (p : Position) : Tile :=
  ((level.tiles[p.row]?).bind fun row => row[p.column]?).getD .empty

end Level

/-- The levels of a game in their order of play. -/
structure LevelIndex where
  first : Level
  rest : List Level
  deriving DecidableEq, Repr

namespace LevelIndex

def levels (index : LevelIndex) : List Level :=
  index.first :: index.rest

/-- The number of levels, which is never zero. -/
def size (index : LevelIndex) : Nat :=
  index.levels.length

/-- The index of a list of levels, unless there is none. -/
def ofLevels? : List Level → Option LevelIndex
  | [] => none
  | first :: rest => some ⟨first, rest⟩

/-- What is said of an index that was to be made of no levels. -/
def noLevelsMessage : String := "no levels to index"

end LevelIndex

end PuzzleLevel
