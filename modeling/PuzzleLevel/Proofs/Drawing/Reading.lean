import PuzzleLevel.Proofs.Drawing
import PuzzleLevel.Proofs.Warnings

/-!
# Reading a Drawing Back

A drawing is made from the tiles, and not from the map. Where it shows a custom tile it asks
the legend for a symbol, by the tile; whoever reads the drawing asks the legend for a tile,
by the symbol. For a legend in which no symbol is defined twice the two fit together, even
if several symbols stand for one tile.

A reader does not only have the legend, though. A character with a fixed meaning is never
looked up, so a drawing that shows an entry of such a character shows something else. And
an empty tile is drawn as a dot, which the legend may define and the start marker may be.
These are the two ways in which a drawing can be misread; everything else in the drawing of
a compiled level means what it shows.

## Main definitions

* `Legend.Drawable`: Symbols are visible and not defined twice.
* `Classifier.TakesDot`: The dot stands for something.
* `Classifier.PassesOver`: A tile is drawn as a character that has a fixed meaning.
* `Compiled.DrawnAs`: What a drawing tells of a compiled level.
* `Misreads`: The drawing of a text tells of some cell what is not so.

## Theorems

* `tile?_of_mem`: A legend says of the symbol of an entry what the entry does.
* `drawable_of_resolve`: A legend that was bound to a map can be drawn.
* `tile_drawn`: What the character says that a tile is drawn with.
* `drawing_truthful`: What a drawing tells of a compiled level is so.
* `drawing_exceptions`: Drawings of valid projects that are misread.
-/

namespace PuzzleLevel

namespace Legend

/-- A legend can be drawn if its symbols are visible and none is defined twice. -/
structure Drawable (legend : Legend) : Prop where
  symbols : (legend.entries.map LegendEntry.symbol).Nodup
  visible : ∀ entry ∈ legend.entries, Text.isBlank entry.symbol = false

/-- A legend says of the symbol of an entry what the entry does. -/
theorem Drawable.tile?_of_mem {legend : Legend} (h : legend.Drawable) {entry : LegendEntry}
    (hentry : entry ∈ legend.entries) : legend.tile? entry.symbol = some entry.tile :=
  (tile?_eq_some_iff h.symbols).mpr ⟨entry, hentry, rfl, rfl⟩

/-- A legend that was bound to a map can be drawn. -/
theorem drawable_of_resolve {rows : List (List Char)} {lines : List NumberedLine}
    {legend : Legend} (hincreasing : lines.Pairwise fun a b => a.number < b.number)
    (h : resolve rows lines = .ok legend) : legend.Drawable := by
  refine ⟨((resolve_eq_ok_iff hincreasing).mp h).2, fun entry hentry => ?_⟩
  rcases exists_line_of_mem hincreasing h hentry with ⟨line, _, hgives⟩
  -- The symbol is what the line begins with when it is trimmed.
  have hsymbol := hgives.symbol_eq
  unfold NumberedLine.symbol? at hsymbol
  rcases List.head?_eq_some_iff.mp hsymbol with ⟨rest, hrest⟩
  exact visible_of_trim hrest

/-- What a legend says of a symbol is the tile of one of its entries. -/
theorem exists_entry_of_tile? {legend : Legend} {c : Char} {tile : CustomTile}
    (h : legend.tile? c = some tile) : ∃ entry ∈ legend.entries, entry.tile = tile := by
  rw [tile?, Option.map_eq_some_iff] at h
  rcases h with ⟨entry, hentry, htile⟩
  exact ⟨entry, List.mem_of_find?_eq_some hentry, htile⟩

/-- A tile of a legend is drawn with the symbol of an entry that has it. -/
theorem exists_drawn_custom {legend : Legend} {tile : CustomTile}
    (h : ∃ entry ∈ legend.entries, entry.tile = tile) :
    ∃ entry ∈ legend.entries, entry.tile = tile ∧ legend.symbolOf? tile = some entry.symbol ∧
      legend.drawn (.custom tile) = entry.symbol := by
  cases hfind : legend.entries.find? (fun entry => entry.tile = tile) with
  | none =>
      rcases h with ⟨entry, hentry, htile⟩
      exact absurd htile (by simpa using List.find?_eq_none.mp hfind entry hentry)
  | some entry =>
      have htile : entry.tile = tile := by simpa using List.find?_some hfind
      have hsymbol : legend.symbolOf? tile = some entry.symbol := by
        rw [symbolOf?, hfind, Option.map_some]
      refine ⟨entry, List.mem_of_find?_eq_some hfind, htile, hsymbol, ?_⟩
      show (legend.symbolOf? tile).getD _ = entry.symbol
      rw [hsymbol, Option.getD_some]

end Legend

namespace Classifier

/-- The dot stands for something, be it the start or what the legend says. -/
def TakesDot (classifier : Classifier) : Prop :=
  classifier.startMarker = '.' ∨ classifier.legend.contains '.' = true

/-- A tile is drawn as a character that has a fixed meaning, because the first entry that has
    the tile is one that the classifier passes over. -/
def PassesOver (classifier : Classifier) (tile : CustomTile) : Prop :=
  ∃ symbol, classifier.legend.symbolOf? tile = some symbol ∧ classifier.isBuiltin symbol = true

/-- A character without a fixed meaning is looked up. -/
theorem tile_lookup {classifier : Classifier} {c : Char} (h : ¬ classifier.isBuiltin c = true) :
    classifier.tile c = ((classifier.legend.tile? c).map Tile.custom).getD .empty :=
  tile_of_not_builtin h

/-- A dot that stands for nothing is empty. -/
theorem tile_dot {classifier : Classifier} (h : ¬ classifier.TakesDot) :
    classifier.tile '.' = .empty := by
  rw [TakesDot, not_or, Bool.not_eq_true] at h
  rcases h with ⟨hmarker, hlegend⟩
  have hbuiltin : ¬ classifier.isBuiltin '.' = true := by
    rw [isBuiltin, Bool.or_eq_true, decide_eq_true_eq, not_or]
    exact ⟨fun heq => hmarker heq.symm, by decide⟩
  rw [Legend.contains, Option.isSome_eq_false_iff, Option.isNone_iff_eq_none] at hlegend
  rw [tile_lookup hbuiltin, Legend.tile?, hlegend]
  rfl

/-- What the character says that a tile is drawn with: that it is this tile and no start,
    unless it is a dot that stands for something, or has a fixed meaning. -/
theorem tile_drawn (classifier : Classifier) (hmarker : classifier.startMarker ∉ builtinSymbols)
    (hlegend : classifier.legend.Drawable) {tile : Tile}
    (hknown : ∀ custom, tile = .custom custom →
      ∃ entry ∈ classifier.legend.entries, entry.tile = custom) :
    (classifier.tile (classifier.legend.drawn tile) = tile ∧
        classifier.legend.drawn tile ≠ classifier.startMarker) ∨
      (tile = .empty ∧ classifier.TakesDot) ∨
      ∃ custom, tile = .custom custom ∧ classifier.PassesOver custom := by
  have hne : ∀ c ∈ builtinSymbols, c ≠ classifier.startMarker := by
    intro c hc heq
    exact hmarker (heq ▸ hc)
  cases tile with
  | empty =>
      by_cases hdot : classifier.TakesDot
      · exact Or.inr (Or.inl ⟨rfl, hdot⟩)
      · exact Or.inl ⟨tile_dot hdot, fun heq => hdot (Or.inl heq.symm)⟩
  | floor => exact Or.inl ⟨if_pos rfl, hne '#' (by decide)⟩
  | finish =>
      have hstart := hne 'F' (by decide)
      refine Or.inl ⟨?_, hstart⟩
      show classifier.tile 'F' = .finish
      rw [Classifier.tile, if_neg (by decide), if_neg hstart, if_pos rfl]
  | rustyFloor =>
      have hstart := hne 'R' (by decide)
      refine Or.inl ⟨?_, hstart⟩
      show classifier.tile 'R' = .rustyFloor
      rw [Classifier.tile, if_neg (by decide), if_neg hstart, if_neg (by decide), if_pos rfl]
  | custom custom =>
      rcases Legend.exists_drawn_custom (hknown custom rfl) with
        ⟨entry, hentry, htile, hsymbol, hdrawn⟩
      rw [hdrawn]
      by_cases hbuiltin : classifier.isBuiltin entry.symbol = true
      · exact Or.inr (Or.inr ⟨custom, rfl, entry.symbol, hsymbol, hbuiltin⟩)
      · refine Or.inl ⟨?_, fun heq => hbuiltin ?_⟩
        · -- The symbol is looked up, and the legend has one entry for it.
          rw [tile_lookup hbuiltin, hlegend.tile?_of_mem hentry, htile]
          rfl
        · rw [isBuiltin, heq, decide_eq_true rfl, Bool.true_or]

end Classifier

/-- What a drawing tells of a compiled level. -/
structure Compiled.DrawnAs (compiled : Compiled) (marker : Char) (drawn : List (List Char)) :
    Prop where
  /-- The drawing has the shape of the grid. -/
  shape : drawn.map List.length = compiled.level.tiles.map List.length
  /-- The marker is drawn where play starts. -/
  start : charAt? drawn compiled.level.start = some marker
  /-- An empty cell is drawn as a dot. -/
  empty : ∀ p c, p ≠ compiled.level.start → charAt? drawn p = some c →
    compiled.level.tile p = .empty → c = '.'
  /-- A character stands for the tile of its cell, and is not the marker. This is not said of
      an empty cell if the dot stands for something, nor of a cell with the tile of an entry
      that is passed over. -/
  cell : ∀ p c, p ≠ compiled.level.start → charAt? drawn p = some c →
    (Classifier.tile ⟨compiled.legend, marker⟩ c = compiled.level.tile p ∧ c ≠ marker) ∨
      (compiled.level.tile p = .empty ∧ Classifier.TakesDot ⟨compiled.legend, marker⟩) ∨
      ∃ custom, compiled.level.tile p = .custom custom ∧
        Classifier.PassesOver ⟨compiled.legend, marker⟩ custom

section Compiles

variable {text : List Char} {options : CompileOptions} {compiled : Compiled}
  (h : compile text options = .ok compiled)

include h

theorem drawable_of_compile : compiled.legend.Drawable :=
  Legend.drawable_of_resolve (Source.increasing_ofText text) (Source.compile_eq_ok_iff.mp h).1

/-- Every custom tile of a compiled level is that of an entry of its legend. -/
theorem exists_entry_of_custom {p : Position} {custom : CustomTile}
    (htile : compiled.level.tile p = .custom custom) :
    ∃ entry ∈ compiled.legend.entries, entry.tile = custom := by
  have hdraws := assemble_ok_iff_draws.mp (Source.compile_eq_ok_iff.mp h).2.1
  rw [hdraws.tile p] at htile
  cases hchar : charAt? (Source.ofText text).rows p with
  | none =>
      rw [hchar] at htile
      exact absurd htile (by simp only [Option.map_none, Option.getD_none, reduceCtorEq,
        not_false_eq_true])
  | some c =>
      rw [hchar] at htile
      exact Legend.exists_entry_of_tile? (Classifier.tile?_of_custom htile)

/-- Every character of the drawing of a compiled level is visible if the marker is. -/
theorem drawnVisibly_of_compile (hvisible : Text.isBlank options.startMarker = false) :
    compiled.level.DrawnVisibly compiled.legend options.startMarker := by
  refine ⟨hvisible, fun p tile htile => ?_⟩
  by_cases hcustom : ∃ custom, tile = .custom custom
  · rcases hcustom with ⟨custom, rfl⟩
    have hcell : compiled.level.tile p = .custom custom := by
      rw [Level.tile_eq, htile, Option.getD_some]
    rcases Legend.exists_drawn_custom (exists_entry_of_custom h hcell) with
      ⟨entry, hentry, _, _, hdrawn⟩
    rw [hdrawn]
    exact (drawable_of_compile h).visible entry hentry
  · exact visible_of_mem_glyphs
      (compiled.legend.drawn_mem_glyphs fun custom heq => hcustom ⟨custom, heq⟩)

/-- What the rows of a drawing tell of a compiled level is so. -/
theorem drawnAs_of_compile (hmarker : options.startMarker ∉ builtinSymbols) :
    compiled.DrawnAs options.startMarker
      (compiled.level.drawnRows compiled.legend options.startMarker) := by
  have hdraws := assemble_ok_iff_draws.mp (Source.compile_eq_ok_iff.mp h).2.1
  -- Away from the start a cell is drawn as its tile is.
  have hcell : ∀ p c, p ≠ compiled.level.start →
      charAt? (compiled.level.drawnRows compiled.legend options.startMarker) p = some c →
      compiled.legend.drawn (compiled.level.tile p) = c := by
    intro p c hp hc
    rcases Level.drawnRows_cases hc with ⟨hstart, _⟩ | ⟨_, tile, htile, hdrawn⟩
    · exact absurd hstart.symm hp
    · rw [Level.tile_eq, htile, Option.getD_some, hdrawn]
  refine ⟨Level.shape_drawnRows .., ?_, fun p c hp hc hempty => ?_, fun p c hp hc => ?_⟩
  · -- The start has a tile, because it is floor.
    rw [Level.charAt?_drawnRows, Level.tileAt?_of_tile hdraws.floor nofun, Option.map_some,
      if_pos rfl]
  · rw [← hcell p c hp hc, hempty]
    rfl
  · rw [← hcell p c hp hc]
    exact Classifier.tile_drawn ⟨compiled.legend, options.startMarker⟩ hmarker
      (drawable_of_compile h) fun custom hcustom => exists_entry_of_custom h hcustom

end Compiles

/-- For a valid configuration and any text that compiles, what the drawing tells of the level
    is so, when it is read with the legend and the marker that it was drawn with. -/
theorem drawing_truthful {config : Config} (hvalid : config.isValid = true) {text : List Char}
    {compiled : Compiled} (h : compile text config.compileOptions = .ok compiled) :
    compiled.DrawnAs config.startMarker (Text.lines
      (compiled.level.drawing compiled.legend config.startMarker).toList) := by
  rcases Config.marker_of_isValid hvalid with ⟨hvisible, _, hbuiltin⟩
  have htold := drawnAs_of_compile h hbuiltin
  rw [← Level.lines_drawing (drawnVisibly_of_compile h hvisible)] at htold
  exact htold

/-- A map in which two symbols stand for one tile, and the finish is also defined by the
    legend. -/
def twinText : List Char := "Sab\nF?\n---\na: Ice\nb: Ice\nF: Lava\n".toList

def twinCompiled : Compiled where
  level := ⟨[[.floor, .custom ⟨"Ice", none⟩, .custom ⟨"Ice", none⟩], [.finish, .empty, .empty]],
    ⟨0, 0⟩⟩
  legend := ⟨[⟨'a', ⟨"Ice", none⟩, 4⟩, ⟨'b', ⟨"Ice", none⟩, 5⟩, ⟨'F', ⟨"Lava", none⟩, 6⟩]⟩
  warnings := [.builtin 6 'F']

/-- Its drawing is other than its map, and tells the same. -/
theorem twin_drawing_truthful :
    ({} : Config).isValid = true ∧
      compile twinText ({} : Config).compileOptions = .ok twinCompiled ∧
      twinCompiled.DrawnAs 'S' (Text.lines
        (twinCompiled.level.drawing twinCompiled.legend 'S').toList) :=
  have hvalid : ({} : Config).isValid = true := by decide
  have hcompile : compile twinText ({} : Config).compileOptions = .ok twinCompiled := by
    decide +kernel
  ⟨hvalid, hcompile, drawing_truthful hvalid hcompile⟩

/-- A configuration is valid, but the drawing of a text tells of some cell away from the start
    what is not so: it shows the marker there, or a character that stands for another tile. -/
def Misreads (config : Config) (text : List Char) : Prop :=
  config.isValid = true ∧
    ∃ compiled, compile text config.compileOptions = .ok compiled ∧
      ∃ p c, p ≠ compiled.level.start ∧
        charAt? (Text.lines
          (compiled.level.drawing compiled.legend config.startMarker).toList) p = some c ∧
        ¬ (Classifier.tile ⟨compiled.legend, config.startMarker⟩ c = compiled.level.tile p ∧
          c ≠ config.startMarker)

/-- A drawing is misread where the dot of an empty tile is the start marker, where the legend
    defines it, and where a custom tile is drawn as a finish because an entry that is passed
    over has the same tile. -/
theorem drawing_exceptions :
    Misreads { startMarker := '.' } ".x\n".toList ∧
      Misreads { strict := true } "S.x\n---\n.: Ice\n".toList ∧
      Misreads {} "SiF\n---\nF: Ice\ni: Ice\n".toList := by
  have hmarker : Misreads { startMarker := '.' } ".x\n".toList :=
    ⟨by decide, ⟨⟨[[.floor, .empty]], ⟨0, 0⟩⟩, ⟨[]⟩, []⟩, by decide +kernel,
      ⟨0, 1⟩, '.', by decide, by decide +kernel, by decide +kernel⟩
  have hsymbol : Misreads { strict := true } "S.x\n---\n.: Ice\n".toList :=
    ⟨by decide, ⟨⟨[[.floor, .custom ⟨"Ice", none⟩, .empty]], ⟨0, 0⟩⟩,
        ⟨[⟨'.', ⟨"Ice", none⟩, 3⟩]⟩, []⟩, by decide +kernel,
      ⟨0, 2⟩, '.', by decide, by decide +kernel, by decide +kernel⟩
  have hpassed : Misreads {} "SiF\n---\nF: Ice\ni: Ice\n".toList :=
    ⟨by decide, ⟨⟨[[.floor, .custom ⟨"Ice", none⟩, .finish]], ⟨0, 0⟩⟩,
        ⟨[⟨'F', ⟨"Ice", none⟩, 3⟩, ⟨'i', ⟨"Ice", none⟩, 4⟩]⟩, [.builtin 3 'F']⟩,
        by decide +kernel,
      ⟨0, 1⟩, 'F', by decide, by decide +kernel, by decide +kernel⟩
  exact ⟨hmarker, hsymbol, hpassed⟩

end PuzzleLevel
