import PuzzleLevel.Classifier
import PuzzleLevel.Level

/-!
# Assembling a Level

A map becomes a grid by classifying each of its characters and filling every row
up to the length of the longest one with empty tiles. The start marker must
stand in the map exactly once; its cell is where play starts.

## Main definitions

* `mapWidth`: The length of the longest row.
* `StartError`: Why a map has no single starting position.
* `assemble`: The level drawn by a map.
-/

namespace PuzzleLevel

/-- The length of the longest row of a map. -/
def mapWidth (rows : List (List Char)) : Nat :=
  rows.foldr (fun row width => max row.length width) 0

/-- Why a map has no single starting position. -/
inductive StartError where
  | missing (marker : Char)
  | ambiguous (marker : Char) (positions : List Position)
  deriving DecidableEq, Repr

namespace StartError

def message : StartError → String
  | missing marker => "no start marker '" ++ marker.toString ++ "' found in the map"
  | ambiguous marker positions =>
    "start marker '" ++ marker.toString ++ "' appears " ++ toString positions.length ++
      " times (at " ++ ", ".intercalate (positions.map Position.text) ++ ")"

end StartError

/-- The tiles of one row, filled with empty tiles up to a width. -/
def tileRow (classifier : Classifier) (width : Nat) (row : List Char) : List Tile :=
  row.map classifier.tile ++ List.replicate (width - row.length) .empty

/-- The tiles of a map, with rows of one length. -/
def tileGrid (classifier : Classifier) (rows : List (List Char)) : List (List Tile) :=
  rows.map (tileRow classifier (mapWidth rows))

/-- The level that a map draws. -/
def assemble (classifier : Classifier) (rows : List (List Char)) : Except StartError Level :=
  match occurrences rows classifier.startMarker with
  | [] => .error (.missing classifier.startMarker)
  | [start] => .ok ⟨tileGrid classifier rows, start⟩
  | positions => .error (.ambiguous classifier.startMarker positions)

end PuzzleLevel
