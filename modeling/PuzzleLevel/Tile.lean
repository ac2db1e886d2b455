import PuzzleLevel.Position

/-!
# Tiles

What one cell of a level can be. Four kinds are built in; every other tile is
custom, has a name given by the legend, and may carry one payload: a trigger
that acts on other cells, a direction, or a colour.

## Main definitions

* `Direction`, `Trigger`, `Payload`: What a custom tile may carry.
* `CustomTile`: A tile that a legend defines.
* `CustomTile.targets`: The cells that the trigger of a tile acts on.
* `Tile`: One cell of a level.
* `Tile.glyph`: The character a tile is drawn with when nothing else is known.
-/

namespace PuzzleLevel

/-- The direction of a directional tile. -/
inductive Direction where
  | up
  | down
  | left
  | right
  deriving DecidableEq, Repr

namespace Direction

/-- The directions, in the order in which they are listed to a reader. -/
def all : List Direction := [up, down, left, right]

/-- The keyword of a direction, as a legend spells it. -/
def keyword : Direction → String
  | up => "Up"
  | down => "Down"
  | left => "Left"
  | right => "Right"

/-- The direction that a word names. Case matters: any other spelling is no
    direction. -/
def ofKeyword? (word : String) : Option Direction :=
  all.find? fun direction => direction.keyword = word

end Direction

/-- An effect on zero or more cells of the map. -/
structure Trigger where
  action : String
  /-- The cells it acts on, in the order in which the legend lists them. -/
  targets : List Position
  deriving DecidableEq, Repr

/-- What a custom tile carries besides its name. -/
inductive Payload where
  | trigger (trigger : Trigger)
  | direction (direction : Direction)
  | color (tag : String)
  deriving DecidableEq, Repr

/-- A tile that a legend defines. -/
structure CustomTile where
  name : String
  payload : Option Payload := none
  deriving DecidableEq, Repr

/-- The cells that the trigger of a tile acts on, none if it has no trigger. -/
def CustomTile.targets (tile : CustomTile) : List Position :=
  match tile.payload with
  | some (.trigger trigger) => trigger.targets
  | _ => []

/-- One cell of a level. -/
inductive Tile where
  | empty
  | floor
  | finish
  | rustyFloor
  | custom (tile : CustomTile)
  deriving DecidableEq, Repr

namespace Tile

/-- The character a tile is drawn with when no legend symbol is at hand. A
    custom tile shows the first character of its name. -/
def glyph : Tile → Char
  | empty => '.'
  | floor => '#'
  | finish => 'F'
  | rustyFloor => 'R'
  | custom tile => tile.name.toList.head?.getD '?'

end Tile

end PuzzleLevel
