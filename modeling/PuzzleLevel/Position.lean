/-!
# Positions of a Map

A position names one cell by its row and its column, both counted from zero
within the map section of a level. Columns count characters.

## Main definitions

* `Position`: A row and a column.
* `Position.text`: How a position is written in messages.
* `Position.Before`: The order in which a map is read, row by row.
-/

namespace PuzzleLevel

/-- A cell of a map, by its row and column counted from zero. -/
structure Position where
  row : Nat
  /-- The column, counted in characters from the left. -/
  column : Nat
  deriving DecidableEq, Repr, Inhabited

namespace Position

/-- A position as messages show it, `(row, column)`. -/
def text (p : Position) : String :=
  "(" ++ toString p.row ++ ", " ++ toString p.column ++ ")"

/-- One cell stands before another when a reader that goes row by row, and left
    to right in each row, meets it first. -/
def Before (p q : Position) : Prop :=
  p.row < q.row ∨ p.row = q.row ∧ p.column < q.column

instance (p q : Position) : Decidable (p.Before q) :=
  inferInstanceAs (Decidable (_ ∨ _))

end Position

end PuzzleLevel
