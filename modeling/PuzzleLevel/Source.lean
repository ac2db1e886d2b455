import PuzzleLevel.Text.Line
import PuzzleLevel.Text.Mark

/-!
# Sections of a Level Text

A level is written as map rows, optionally followed by a line that is exactly
`---` and a legend. Only the first such line separates; a later one is a legend
line like any other. Every legend line keeps its number in the file, counted
from one, because that is what a message about it must show.

A byte order mark at the very front belongs to the file and not to the map, so
it is dropped first.

## Main definitions

* `NumberedLine`: A legend line with its number in the file.
* `Source`: The two sections.
* `Source.ofText`: The sections of a text.
-/

namespace PuzzleLevel

/-- A line of a file together with its number there, counted from one. -/
structure NumberedLine where
  number : Nat
  text : List Char
  deriving DecidableEq, Repr

/-- The two sections of a level text. -/
structure Source where
  /-- The map, one character a tile. -/
  rows : List (List Char)
  legend : List NumberedLine
  deriving DecidableEq, Repr

namespace Source

/-- The line that separates the map from the legend. -/
def separator : List Char := ['-', '-', '-']

/-- Lines with the numbers they get when the first one is number `first`. -/
def numberFrom (first : Nat) (lines : List (List Char)) : List NumberedLine :=
  lines.zipIdx first |>.map fun (text, number) => ⟨number, text⟩

/-- The sections of a list of lines: the map stops before the first separator,
    and the legend is all that follows it. -/
def ofLines (lines : List (List Char)) : Source :=
  let rows := lines.takeWhile (· ≠ separator)
  -- The separator has number `rows.length + 1`, so the legend starts one later.
  { rows, legend := numberFrom (rows.length + 2) (lines.drop (rows.length + 1)) }

/-- The sections of a level text. -/
def ofText (text : List Char) : Source :=
  ofLines (Text.lines (Text.withoutMark text))

end Source

end PuzzleLevel
