import PuzzleLevel.Legend.Entry

/-!
# Legends

A legend holds one entry for each symbol it defines, in the order of their lines
in the file. It is resolved line by line: a blank line says nothing, and for any
other the line is read, then its symbol compared with the earlier ones, then its
references bound, so that of several faults the one found first in this order is
reported.

Entries are inserted by line number rather than appended. For the legend of a
file the two agree; a legend given as numbered lines in any order is listed by
number all the same.

## Main definitions

* `Legend`: Entries in the order of their lines.
* `Legend.entry?`, `Legend.tile?`: What a legend says of a symbol.
* `LegendError`: The first fault of a legend.
* `Legend.readLine`: One line, not yet bound to the map.
* `Legend.resolve`: The legend of a list of lines, bound to a map.
-/

namespace PuzzleLevel

/-- A legend, bound to its map. -/
structure Legend where
  /-- The entries, in the order of their lines. -/
  entries : List LegendEntry := []
  deriving DecidableEq, Repr

/-- The first fault of a legend. -/
inductive LegendError where
  | line (number : Nat) (fault : LineFault)
  | reference (error : ReferenceError)
  deriving DecidableEq, Repr

namespace Legend

def empty : Legend := {}

def size (legend : Legend) : Nat :=
  legend.entries.length

/-- The entry that defines a symbol. -/
def entry? (legend : Legend) (symbol : Char) : Option LegendEntry :=
  legend.entries.find? fun entry => entry.symbol = symbol

/-- The tile that a symbol stands for. -/
def tile? (legend : Legend) (symbol : Char) : Option CustomTile :=
  (legend.entry? symbol).map LegendEntry.tile

def contains (legend : Legend) (symbol : Char) : Bool :=
  (legend.entry? symbol).isSome

/-- Puts an entry behind all entries of earlier and equal lines. -/
def insertByLine (entry : LegendEntry) : List LegendEntry → List LegendEntry
  | [] => [entry]
  | first :: more =>
    if entry.line < first.line then entry :: first :: more
    else first :: insertByLine entry more

/-- The legend with one more entry. -/
def insert (legend : Legend) (entry : LegendEntry) : Legend :=
  ⟨insertByLine entry legend.entries⟩

/-- The fault of an entry, reported with the number of its line. -/
def errorAt (number : Nat) : EntryFault → LegendError
  | .line fault => .line number fault
  | .reference error => .reference error

/-- A line of a legend by itself, its fault reported with its number. -/
def readLine (line : NumberedLine) : Except LegendError LegendLine :=
  match LegendLine.read line with
  | .error fault => .error (.line line.number fault)
  | .ok parsed => .ok parsed

/-- The legend with one more line. A blank line changes nothing. -/
def addLine (rows : List (List Char)) (legend : Legend) (line : NumberedLine) :
    Except LegendError Legend :=
  if (Text.trim line.text).isEmpty then .ok legend
  else
    match readLine line with
    | .error error => .error error
    | .ok parsed =>
      -- A repeated symbol is refused before its references are looked up.
      match legend.entry? parsed.symbol with
      | some previous => .error (.line line.number (.duplicate parsed.symbol previous.line))
      | none =>
        match parsed.bind rows with
        | .error fault => .error (errorAt line.number fault)
        | .ok entry => .ok (legend.insert entry)

/-- The legend with more lines, taken in their order up to the first fault. -/
def addLines (rows : List (List Char)) (legend : Legend) :
    List NumberedLine → Except LegendError Legend
  | [] => .ok legend
  | line :: more =>
    match addLine rows legend line with
    | .error error => .error error
    | .ok legend => addLines rows legend more

/-- The legend of a list of lines, bound to a map. -/
def resolve (rows : List (List Char)) (lines : List NumberedLine) : Except LegendError Legend :=
  addLines rows empty lines

end Legend

end PuzzleLevel
