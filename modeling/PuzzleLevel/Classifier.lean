import PuzzleLevel.Legend.Basic

/-!
# Classifying Map Characters

Every character of a map stands for one tile. A few have a fixed meaning that no
legend can change, the start marker among them; the others mean what the legend
says, and nothing at all when it says nothing.

A marker takes its meaning before the finish and the rusty floor do, so that a
level may use either of their characters as its marker; on solid floor the two
agree.

## Main definitions

* `Classifier`: A legend together with a start marker.
* `Classifier.isBuiltin`: Whether the legend has no say in a character.
* `Classifier.tile`: The tile a character stands for.
-/

namespace PuzzleLevel

/-- The characters with a fixed meaning, the start marker apart. -/
def builtinSymbols : List Char := ['#', 'F', 'R']

/-- What decides the tile of a map character. -/
structure Classifier where
  legend : Legend
  startMarker : Char

namespace Classifier

/-- Whether a character has a fixed meaning, so that the legend has no say. -/
def isBuiltin (classifier : Classifier) (c : Char) : Bool :=
  c = classifier.startMarker || builtinSymbols.contains c

/-- The tile that a map character stands for. -/
def tile (classifier : Classifier) (c : Char) : Tile :=
  if c = '#' then .floor
  -- From here on the marker comes first, whatever else it could mean.
  else if c = classifier.startMarker then .floor
  else if c = 'F' then .finish
  else if c = 'R' then .rustyFloor
  else
    match classifier.legend.tile? c with
    | some tile => .custom tile
    | none => .empty

end Classifier

end PuzzleLevel
