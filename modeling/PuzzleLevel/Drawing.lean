import PuzzleLevel.Compile
import PuzzleLevel.Level.Encoding

/-!
# Drawing Levels

A level is drawn with one character a tile and the start marker on its starting
position. A custom tile is drawn with the symbol that the legend has for it; a
legend that gives one tile several symbols is asked for the one defined first. A
tile the legend does not know falls back to its own glyph.

A legend is described with one line an entry: its symbol, its name, and its
payload as a compact document, or a dash when it has none.

## Main definitions

* `Legend.symbolOf?`: The symbol that a legend has for a tile.
* `Level.drawing`: A level as text.
* `Legend.description`: A legend as text.
-/

namespace PuzzleLevel

def Legend.symbolOf? (legend : Legend) (tile : CustomTile) : Option Char :=
  (legend.entries.find? fun entry => entry.tile = tile).map LegendEntry.symbol

def Legend.drawn (legend : Legend) : Tile → Char
  | .custom tile => (legend.symbolOf? tile).getD (Tile.custom tile).glyph
  | tile => tile.glyph

/-- The rows of a drawing. -/
def Level.drawnRows (level : Level) (legend : Legend) (marker : Char) : List (List Char) :=
  level.tiles.zipIdx.map fun (tiles, row) =>
    tiles.zipIdx.map fun (tile, column) =>
      -- The start hides the tile below it.
      if level.start = ⟨row, column⟩ then marker else legend.drawn tile

/-- A level as text, one row a line. -/
def Level.drawing (level : Level) (legend : Legend) (marker : Char) : String :=
  String.ofList (Text.unlines (level.drawnRows legend marker))

/-- An entry of a legend as text. -/
def LegendEntry.description (entry : LegendEntry) : String :=
  let payload := match entry.tile.payload with
    | some payload => payload.toJson.compact
    | none => "-"
  entry.symbol.toString ++ "  " ++ entry.tile.name ++ "  " ++ payload ++ "\n"

/-- A legend as text, one entry a line. -/
def Legend.description (legend : Legend) : String :=
  String.join (legend.entries.map LegendEntry.description)

end PuzzleLevel
