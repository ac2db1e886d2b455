import PuzzleLevel.Position

/-!
# Occurrences of a Character in a Map

A legend may refer to a cell by the character drawn there, so for every
character the map must say where it stands. The positions are listed in the
order in which a map is read, row by row; a reference is good when there is
exactly one of them.

One character is found by looking for it. References may be to any character, so
for them the map is read once, and every cell is recorded under its character.

## Main definitions

* `occurrences`: The positions of a character.
* `ReferenceError`: Why a reference names no single position.
* `PositionIndex`: The positions of all characters.
* `PositionIndex.ofRows`: The index of a map.
* `lookup`: The single position of a character.
-/

namespace PuzzleLevel

/-- The positions of a character in one row of the map. -/
def occurrencesInRow (row : Nat) (cells : List Char) (c : Char) : List Position :=
  cells.zipIdx.filterMap fun (d, column) => if d = c then some ⟨row, column⟩ else none

/-- The positions of a character in a map, row by row. -/
def occurrences (rows : List (List Char)) (c : Char) : List Position :=
  rows.zipIdx.flatMap fun (cells, row) => occurrencesInRow row cells c

/-- Why a reference from a legend names no single position. -/
inductive ReferenceError where
  | unresolved (symbol target : Char)
  /-- The character stands in several places, of which the first is given. -/
  | ambiguous (symbol target : Char) (count : Nat) (first : Position)
  deriving DecidableEq, Repr

namespace ReferenceError

def message : ReferenceError → String
  | unresolved symbol target =>
    "legend '" ++ symbol.toString ++ "' references '@" ++ target.toString ++
      "', which does not appear in the map"
  | ambiguous symbol target count first =>
    "legend '" ++ symbol.toString ++ "' references '@" ++ target.toString ++
      "', which appears " ++ toString count ++ " times in the map (first at " ++ first.text ++ ")"

end ReferenceError

/-- The positions of the characters of a map. -/
structure PositionIndex where
  /-- The characters in the order in which they were first recorded, each with its
      positions. -/
  entries : List (Char × Array Position) := []
  deriving DecidableEq, Repr

namespace PositionIndex

/-- Entries with one more position of a character, which gets an entry of its own
    if it has none. -/
def recordIn (c : Char) (p : Position) :
    List (Char × Array Position) → List (Char × Array Position)
  | [] => [(c, #[p])]
  | (d, places) :: more =>
    if d = c then (d, places.push p) :: more else (d, places) :: recordIn c p more

/-- The index with one more position of a character. -/
def record (index : PositionIndex) (c : Char) (p : Position) : PositionIndex :=
  ⟨recordIn c p index.entries⟩

/-- The positions of a character, in the order in which they were recorded. -/
def positions (index : PositionIndex) (c : Char) : List Position :=
  match index.entries.find? fun entry => entry.1 = c with
  | some (_, places) => places.toList
  | none => []

/-- How often a character was recorded. -/
def count (index : PositionIndex) (c : Char) : Nat :=
  (index.positions c).length

/-- The index with the cells of one more row, from left to right. -/
def addRow (index : PositionIndex) (row : Nat) (cells : List Char) : PositionIndex :=
  cells.zipIdx.foldl (fun index (c, column) => index.record c ⟨row, column⟩) index

/-- The index of a map, which is read row by row. -/
def ofRows (rows : List (List Char)) : PositionIndex :=
  rows.zipIdx.foldl (fun index (cells, row) => index.addRow row cells) {}

/-- The single position of a character, as the legend entry of a symbol refers
    to it. -/
def lookup (index : PositionIndex) (symbol target : Char) : Except ReferenceError Position :=
  match index.positions target with
  | [] => .error (.unresolved symbol target)
  | [only] => .ok only
  | first :: more => .error (.ambiguous symbol target (more.length + 1) first)

end PositionIndex

/-- The single position of a character of a map, as the legend entry of a symbol
    refers to it. -/
def lookup (rows : List (List Char)) (symbol target : Char) : Except ReferenceError Position :=
  (PositionIndex.ofRows rows).lookup symbol target

end PuzzleLevel
