import PuzzleLevel.Config.Basic
import PuzzleLevel.Drawing
import PuzzleLevel.Proofs.Assembly
import PuzzleLevel.Proofs.Legend.Reader
import PuzzleLevel.Proofs.Text.Ending

/-!
# What a Drawing Shows

A drawing is a text, and it is looked at as one: it is cut into lines, and the character of
a cell is the one at the place of the cell. That the lines are the rows of the grid needs an
argument, because nothing keeps a legend from being asked for any tile. A character that
ends a line, or is taken for a part of its ending, would move all that stands behind it.

All such characters are blank. So a drawing in which every character is visible has the
shape of its grid, and each of its characters can be told from the tile of its cell.

## Main definitions

* `builtinGlyphs`: What the tiles are drawn with that are not custom.
* `Level.tileAt?`: The tile at a position of the grid.
* `Level.DrawnVisibly`: Every character of a drawing is visible.

## Theorems

* `marker_of_isValid`: What a start marker is that a configuration may have.
* `charAt?_drawnRows`: A character of a drawing is told from its tile.
* `drawnRows_cases`: The two kinds of characters that a drawing has.
* `lines_drawing`: The lines of a drawing are the rows of the grid.
-/

namespace PuzzleLevel

/-- A start marker that a configuration may have is visible, no dash, and has no fixed
    meaning. -/
theorem Config.marker_of_isValid {config : Config} (h : config.isValid = true) :
    Text.isBlank config.startMarker = false ∧ config.startMarker ≠ '-' ∧
      config.startMarker ∉ builtinSymbols := by
  rw [isValid, List.isEmpty_iff, problems, List.append_eq_nil_iff, List.append_eq_nil_iff] at h
  have hmarker : isMarker config.startMarker = true := by
    by_cases hgood : isMarker config.startMarker = true
    · exact hgood
    · -- A bad marker is the first problem that is listed.
      rw [if_neg hgood] at h
      exact absurd h.1.1 (List.cons_ne_nil _ _)
  unfold isMarker at hmarker
  simp only [Bool.and_eq_true, Bool.not_eq_true', decide_eq_true_eq] at hmarker
  rcases hmarker with ⟨⟨hbuiltin, hdash⟩, hvisible⟩
  refine ⟨hvisible, hdash, fun hmem => ?_⟩
  rw [List.contains_iff_mem.mpr hmem] at hbuiltin
  exact absurd hbuiltin (by decide)

/-- What the tiles are drawn with that are not custom. -/
def builtinGlyphs : List Char := ['.', '#', 'F', 'R']

/-- A tile that is not custom is drawn in one way, whatever the legend is. -/
theorem Legend.drawn_mem_glyphs (legend : Legend) {tile : Tile}
    (h : ∀ custom, tile ≠ .custom custom) : legend.drawn tile ∈ builtinGlyphs := by
  cases tile with
  | empty => exact show '.' ∈ builtinGlyphs by decide
  | floor => exact show '#' ∈ builtinGlyphs by decide
  | finish => exact show 'F' ∈ builtinGlyphs by decide
  | rustyFloor => exact show 'R' ∈ builtinGlyphs by decide
  | custom custom => exact absurd rfl (h custom)

theorem visible_of_mem_glyphs {c : Char} (h : c ∈ builtinGlyphs) : Text.isBlank c = false := by
  have hall : builtinGlyphs.all (fun glyph => !Text.isBlank glyph) = true := by decide
  have hvisible := List.all_eq_true.mp hall c h
  rwa [Bool.not_eq_true'] at hvisible

namespace Level

/-- The tile at a position of the grid, or nothing outside of it. -/
def tileAt? (level : Level) (p : Position) : Option Tile :=
  (level.tiles[p.row]?).bind fun tiles => tiles[p.column]?

/-- Outside of the grid all is empty. -/
theorem tile_eq (level : Level) (p : Position) : level.tile p = (level.tileAt? p).getD .empty :=
  rfl

/-- A tile that is not empty lies inside of it. -/
theorem tileAt?_of_tile {level : Level} {p : Position} {tile : Tile} (h : level.tile p = tile)
    (hne : tile ≠ .empty) : level.tileAt? p = some tile := by
  rw [tile_eq] at h
  cases htile : level.tileAt? p with
  | none =>
      rw [htile, Option.getD_none] at h
      exact absurd h.symm hne
  | some found =>
      rw [htile, Option.getD_some] at h
      rw [h]

/-- A character of a drawing is the marker at the start, and elsewhere what its tile is
    drawn with. There is none outside of the grid. -/
theorem charAt?_drawnRows (level : Level) (legend : Legend) (marker : Char) (p : Position) :
    charAt? (level.drawnRows legend marker) p =
      (level.tileAt? p).map fun tile => if level.start = p then marker else legend.drawn tile := by
  unfold charAt? drawnRows tileAt?
  rw [List.getElem?_map, List.getElem?_zipIdx]
  cases level.tiles[p.row]? with
  | none => rfl
  | some tiles =>
      simp only [Option.map_some, Option.bind_some, List.getElem?_map, List.getElem?_zipIdx,
        Option.map_map, Nat.zero_add]
      rfl

/-- The two kinds of characters that a drawing has: the marker, and those of tiles. -/
theorem drawnRows_cases {level : Level} {legend : Legend} {marker : Char} {p : Position} {c : Char}
    (h : charAt? (level.drawnRows legend marker) p = some c) :
    (level.start = p ∧ marker = c) ∨
      (level.start ≠ p ∧ ∃ tile, level.tileAt? p = some tile ∧ legend.drawn tile = c) := by
  rw [charAt?_drawnRows, Option.map_eq_some_iff] at h
  rcases h with ⟨tile, htile, hc⟩
  by_cases hstart : level.start = p
  · rw [if_pos hstart] at hc
    exact Or.inl ⟨hstart, hc⟩
  · rw [if_neg hstart] at hc
    exact Or.inr ⟨hstart, tile, htile, hc⟩

/-- A drawing has as many rows as the grid, and each is as long as that of the grid. -/
theorem shape_drawnRows (level : Level) (legend : Legend) (marker : Char) :
    (level.drawnRows legend marker).map List.length = level.tiles.map List.length := by
  unfold drawnRows
  rw [List.map_map]
  refine List.ext_getElem (by simp only [List.length_map, List.length_zipIdx]) fun i hi hj => ?_
  simp only [List.getElem_map, List.getElem_zipIdx, Function.comp_apply, List.length_map,
    List.length_zipIdx]

/-- Every character of a drawing is visible: the marker, and what the tiles are drawn with. -/
structure DrawnVisibly (level : Level) (legend : Legend) (marker : Char) : Prop where
  marker : Text.isBlank marker = false
  tile : ∀ p tile, level.tileAt? p = some tile → Text.isBlank (legend.drawn tile) = false

section Visible

variable {level : Level} {legend : Legend} {marker : Char}

theorem DrawnVisibly.visible (h : level.DrawnVisibly legend marker) {row : List Char} {c : Char}
    (hrow : row ∈ level.drawnRows legend marker) (hc : c ∈ row) : Text.isBlank c = false := by
  rcases exists_charAt? hrow hc with ⟨p, hp⟩
  rcases drawnRows_cases hp with ⟨_, rfl⟩ | ⟨_, tile, htile, rfl⟩
  · exact h.marker
  · exact h.tile p tile htile

/-- The lines of a drawing are the rows of the grid. -/
theorem lines_drawing (h : level.DrawnVisibly legend marker) :
    Text.lines (level.drawing legend marker).toList = level.drawnRows legend marker := by
  unfold drawing
  rw [String.toList_ofList]
  refine Text.lines_unlines fun row hrow => ⟨fun hfeed => ?_, fun hreturn => ?_⟩
  · have hvisible := h.visible hrow hfeed
    exact absurd hvisible (by decide)
  · -- What ends in a carriage return has one.
    have hvisible := h.visible hrow (List.mem_of_getLast? hreturn)
    exact absurd hvisible (by decide)

end Visible

end Level

end PuzzleLevel
