import PuzzleLevel.Json.Magnitude
import PuzzleLevel.Json.Reader
import PuzzleLevel.Json.Record
import PuzzleLevel.Level.Encoding

/-!
# Levels from Documents

Reading back what `PuzzleLevel.Level.Encoding` writes. The reader is generous
about form: members may stand in any order, unknown ones are passed over, a
record may be given as the list of its fields, and the name of a kind may be
written as an object with null under it.

A tile names its kind among its other members, so all of it is taken in before
the kind is known. That is why a tile is stricter than the records around it:
nothing in it may be unreadable, not even where nobody looks. Its strings must
have characters, its numbers must be within reach of floating point, and it may
not be nested too deep, counted from the outermost container of the document.

## Main definitions

* `Json.isPlain`: Whether a document can be taken in whole.
* `Position.ofJson?`, `Tile.ofJson?`, `Level.ofJson?`, `LevelIndex.ofJson?`: What
  a document stands for.
* `Level.read?`, `LevelIndex.read?`: What a text is the document of.
-/

namespace PuzzleLevel

namespace Json

/-- The greatest number of containers around a value that is taken in whole. -/
def maxDepth : Nat := 127

mutual

/-- Whether a document can be taken in whole, with room for the given number of
    containers inside each other. -/
def isPlain (room : Nat) : Json → Bool
  | .null => true
  | .bool _ => true
  | .number literal => isFinite literal
  | .string chars => chars.isSome
  | .array items => room != 0 && areItemsPlain (room - 1) items
  | .object members => room != 0 && areMembersPlain (room - 1) members

/-- Whether all items of a list can be taken in whole. -/
def areItemsPlain (room : Nat) : List Json → Bool
  | [] => true
  | item :: more => isPlain room item && areItemsPlain room more

/-- Whether all members of an object can be taken in whole. -/
def areMembersPlain (room : Nat) : List (Option String × Json) → Bool
  | [] => true
  | (key, value) :: more => key.isSome && isPlain room value && areMembersPlain room more

end

end Json

/-- The position that a document stands for. -/
def Position.ofJson? (j : Json) : Option Position :=
  match j.fields? ["row", "column"] with
  | some [some row, some column] =>
    match row.nat64?, column.nat64? with
    | some row, some column => some ⟨row, column⟩
    | _, _ => none
  | _ => none

/-- The direction with a name. -/
def Direction.ofTag? (name : String) : Option Direction :=
  Direction.all.find? fun direction => direction.tag = name

/-- Where a value is read from: the document itself, or a part of it that was
    taken in whole before. There an object without members may stand for null
    under the name of a kind. -/
inductive Json.Place where
  | direct
  | held
  deriving DecidableEq, Repr

/-- Whether a document may stand under a kind that comes with nothing. -/
def Json.isNothing (place : Json.Place) : Json → Bool
  | .null => true
  | .object [] => place = .held
  | _ => false

def Direction.ofJson? (place : Json.Place) (j : Json) : Option Direction :=
  match j.choice? with
  | some (name, none) => Direction.ofTag? name
  | some (name, some value) => if value.isNothing place then Direction.ofTag? name else none
  | none => none

def Trigger.ofJson? (j : Json) : Option Trigger :=
  match j.fields? ["action", "targets"] with
  | some [some action, some targets] =>
    match action.text?, targets.items?.bind fun items => items.mapM Position.ofJson? with
    | some action, some targets => some ⟨action, targets⟩
    | _, _ => none
  | _ => none

def Payload.ofJson? (place : Json.Place) (j : Json) : Option Payload :=
  match j.choice? with
  | some (name, some value) =>
    if name = "trigger" then (Trigger.ofJson? value).map .trigger
    else if name = "direction" then (Direction.ofJson? place value).map .direction
    else if name = "color" then value.text?.map .color
    else none
  | _ => none

/-- The payload of a tile, for which null stands as well as nothing. -/
def Payload.optional? (place : Json.Place) : Option Json → Option (Option Payload)
  | none => some none
  | some .null => some none
  | some j => (Payload.ofJson? place j).map some

/-- The custom tile with the given fields. -/
def CustomTile.ofFields? (place : Json.Place) : List (Option Json) → Option CustomTile
  | [some name, payload] =>
    match name.text?, Payload.optional? place payload with
    | some name, some payload => some ⟨name, payload⟩
    | _, _ => none
  | _ => none

/-- The names of the fields of a custom tile. -/
def CustomTile.fieldNames : List String := ["name", "payload"]

def CustomTile.ofJson? (place : Json.Place) (j : Json) : Option CustomTile :=
  (j.fields? fieldNames).bind (ofFields? place)

/-- The tile of a kind that comes with nothing. -/
def Tile.ofKind? (kind : String) : Option Tile :=
  if kind = "empty" then some .empty
  else if kind = "floor" then some .floor
  else if kind = "finish" then some .finish
  else if kind = "rustyFloor" then some .rustyFloor
  else none

/-- The tile that a document stands for, when `room` containers may stand inside
    each other from here on. -/
def Tile.ofJson? (room : Nat) (j : Json) : Option Tile :=
  if j.isPlain room then
    match j with
    | .object members =>
      match Json.member? members "kind" with
      | some (some (.string (some kind))) =>
        if kind = "custom" then (CustomTile.ofJson? .held j).map .custom
        else Tile.ofKind? kind
      | _ => none
    -- A list has the kind in front and the fields of that kind behind it.
    | .array (.string (some kind) :: rest) =>
      if kind = "custom" then (CustomTile.ofJson? .held (.array rest)).map .custom
      else if rest.isEmpty then Tile.ofKind? kind
      else none
    | _ => none
  else none

/-- The level that a document stands for, with `around` containers around it. -/
def Level.ofJson? (around : Nat) (j : Json) : Option Level :=
  match j.fields? ["tiles", "startingPosition"] with
  | some [some tiles, some start] =>
    -- The level, its grid and the row stand around a tile.
    let room := Json.maxDepth - (around + 3)
    let rows := tiles.items?.bind fun rows =>
      rows.mapM fun row => row.items?.bind fun items => items.mapM (Tile.ofJson? room)
    match rows, Position.ofJson? start with
    | some tiles, some start => some ⟨tiles, start⟩
    | _, _ => none
  | _ => none

/-- The level that a text is the document of. -/
def Level.read? (text : List Char) : Option Level :=
  (Json.read? text).bind (ofJson? 0)

/-- The index that a document stands for. -/
def LevelIndex.ofJson? (j : Json) : Option LevelIndex :=
  match j.fields? ["firstLevel", "restLevels"] with
  | some [some first, some rest] =>
    match Level.ofJson? 1 first,
      rest.items?.bind fun levels => levels.mapM (Level.ofJson? 2) with
    | some first, some rest => some ⟨first, rest⟩
    | _, _ => none
  | _ => none

/-- The index that a text is the document of. -/
def LevelIndex.read? (text : List Char) : Option LevelIndex :=
  (Json.read? text).bind ofJson?

/-- The identifiers that a document of an index lists. A document that lists
    none, or is no such document at all, has no order to tell. -/
def LevelIndex.order (j : Json) : List String :=
  match j.fields? ["order"] with
  | some [some order] => order.texts?.getD []
  | _ => []

end PuzzleLevel
