import PuzzleLevel.Json.Printer
import PuzzleLevel.Level

/-!
# Levels as Documents

The document form of levels, which a game reads. A tile is an object whose first
member names its kind; a custom tile adds its name, and its payload when it has
one. Members stand in the order in which they are listed here, and a payload that
is missing is left out rather than written as null.

## Main definitions

* `Position.toJson`, `Tile.toJson`, `Level.toJson`, `LevelIndex.toJson`: The
  documents.
* `LevelIndex.document`: The index together with the identifiers of its levels.
-/

namespace PuzzleLevel

def Position.toJson (p : Position) : Json :=
  .record [("row", .ofNat p.row), ("column", .ofNat p.column)]

/-- The name of a direction in a document. -/
def Direction.tag : Direction → String
  | .up => "up"
  | .down => "down"
  | .left => "left"
  | .right => "right"

def Direction.toJson (direction : Direction) : Json :=
  .text direction.tag

def Trigger.toJson (trigger : Trigger) : Json :=
  .record [("action", .text trigger.action),
    ("targets", .array (trigger.targets.map Position.toJson))]

def Payload.toJson : Payload → Json
  | .trigger t => .record [("trigger", t.toJson)]
  | .direction d => .record [("direction", d.toJson)]
  | .color tag => .record [("color", .text tag)]

/-- The members of the document of a custom tile. -/
def CustomTile.members (tile : CustomTile) : List (String × Json) :=
  ("name", .text tile.name) ::
    match tile.payload with
    | some payload => [("payload", payload.toJson)]
    | none => []

/-- A custom tile as a document of its own. -/
def CustomTile.toJson (tile : CustomTile) : Json :=
  .record tile.members

def Tile.toJson : Tile → Json
  | .empty => .record [("kind", .text "empty")]
  | .floor => .record [("kind", .text "floor")]
  | .finish => .record [("kind", .text "finish")]
  | .rustyFloor => .record [("kind", .text "rustyFloor")]
  | .custom tile => .record (("kind", .text "custom") :: tile.members)

def Level.toJson (level : Level) : Json :=
  .record [("tiles", .array (level.tiles.map fun row => .array (row.map Tile.toJson))),
    ("startingPosition", level.start.toJson)]

/-- The members of the document of an index. -/
def LevelIndex.members (index : LevelIndex) : List (String × Json) :=
  [("firstLevel", index.first.toJson), ("restLevels", .array (index.rest.map Level.toJson))]

def LevelIndex.toJson (index : LevelIndex) : Json :=
  .record index.members

/-- The document of an index and the identifiers of its levels, which stand
    first. -/
def LevelIndex.document (order : List String) (index : LevelIndex) : Json :=
  .record (("order", .texts order) :: index.members)

end PuzzleLevel
