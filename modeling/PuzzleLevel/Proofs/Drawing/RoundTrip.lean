import PuzzleLevel.Proofs.Drawing.Reading

/-!
# Compiling a Drawing

A drawing is a level text without a legend. If the level needs none, compiling its drawing
gives the level again.

Four things in a text could be taken for something other than a row of the map: the ending
of a line, the line that separates the sections, the mark in front of a file, and a second
start marker. The tiles that need no legend are drawn with four characters, none of which
is any of these, so all depends on the marker. A valid configuration keeps it from being
blank, a dash or a character with a fixed meaning. The dot and the mark are left, and they
have to be excluded here: a dot is also an empty tile, and a mark in front of the text would
be dropped.

That the level comes back is then no more than that the drawing draws it.

## Main definitions

* `Level.IsPlain`: A level that needs no legend.

## Theorems

* `ofText_drawing`: The drawing of a plain level is a map without a legend.
* `standsOnlyAt_start`: The map has one start marker.
* `draws_drawnRows`: The map draws the level.
* `compile_drawing`: The drawing of a plain level compiles to the level.
-/

namespace PuzzleLevel

/-- A level that needs no legend: a rectangle without custom tiles, in which play starts on
    floor. -/
structure Level.IsPlain (level : Level) : Prop where
  rectangular : ∀ tiles ∈ level.tiles, tiles.length = level.width
  builtin : ∀ tiles ∈ level.tiles, ∀ tile ∈ tiles, ∀ custom, tile ≠ .custom custom
  row : level.start.row < level.height
  column : level.start.column < level.width
  floor : level.tile level.start = .floor

namespace Level

section Plain

variable {level : Level} (h : level.IsPlain)

include h

theorem IsPlain.builtin_at {p : Position} {tile : Tile} (htile : level.tileAt? p = some tile) :
    ∀ custom, tile ≠ .custom custom := by
  rw [tileAt?, Option.bind_eq_some_iff] at htile
  rcases htile with ⟨tiles, hrow, hcell⟩
  exact h.builtin tiles (List.mem_of_getElem? hrow) tile (List.mem_of_getElem? hcell)

/-- Play starts inside the grid. -/
theorem IsPlain.tileAt?_start : level.tileAt? level.start = some .floor :=
  tileAt?_of_tile h.floor nofun

theorem IsPlain.drawnVisibly {marker : Char} (hvisible : Text.isBlank marker = false)
    (legend : Legend) : level.DrawnVisibly legend marker :=
  ⟨hvisible, fun _ _ htile => visible_of_mem_glyphs (legend.drawn_mem_glyphs (h.builtin_at htile))⟩

/-- The drawing of a plain level has the marker and the characters of tiles. -/
theorem IsPlain.mem_row {legend : Legend} {marker : Char} {row : List Char} {c : Char}
    (hrow : row ∈ level.drawnRows legend marker) (hc : c ∈ row) :
    c = marker ∨ c ∈ builtinGlyphs := by
  rcases exists_charAt? hrow hc with ⟨p, hp⟩
  rcases drawnRows_cases hp with ⟨_, heq⟩ | ⟨_, tile, htile, rfl⟩
  · exact Or.inl heq.symm
  · exact Or.inr (legend.drawn_mem_glyphs (h.builtin_at htile))

/-- The drawing of a plain level is a map without a legend. -/
theorem ofText_drawing {legend : Legend} {marker : Char}
    (hvisible : Text.isBlank marker = false) (hdash : marker ≠ '-')
    (hmark : marker ≠ Text.byteOrderMark) :
    Source.ofText (level.drawing legend marker).toList = ⟨level.drawnRows legend marker, []⟩ := by
  have hnoMark : Text.byteOrderMark ∉ (level.drawing legend marker).toList := by
    intro hmem
    rw [drawing, String.toList_ofList] at hmem
    rcases Text.mem_unlines hmem with hfeed | ⟨row, hrow, hc⟩
    · exact absurd hfeed (by decide)
    · rcases h.mem_row hrow hc with heq | hglyph
      · exact hmark heq.symm
      · exact absurd hglyph (by decide)
  have hnoSeparator : Source.separator ∉ level.drawnRows legend marker := by
    intro hmem
    -- A separator has a dash.
    rcases h.mem_row hmem (List.mem_cons_self ..) with heq | hglyph
    · exact hdash heq.symm
    · exact absurd hglyph (by decide)
  rw [Source.ofText, Text.withoutMark_of_notMem hnoMark,
    lines_drawing (h.drawnVisibly hvisible legend), Source.ofLines_of_notMem hnoSeparator]

section Marker

variable {marker : Char} (hbuiltin : marker ∉ builtinSymbols) (hdot : marker ≠ '.')

include hbuiltin hdot

omit h in
/-- No tile is drawn as the marker if the marker is no dot. -/
theorem notMem_builtinGlyphs : marker ∉ builtinGlyphs := by
  intro hmem
  rcases List.mem_cons.mp hmem with heq | hmore
  · exact hdot heq
  · exact hbuiltin hmore

/-- The marker is drawn at the start and nowhere else. -/
theorem IsPlain.standsOnlyAt_start (legend : Legend) :
    StandsOnlyAt (level.drawnRows legend marker) marker level.start := by
  refine ⟨?_, fun p hp => ?_⟩
  · rw [charAt?_drawnRows, h.tileAt?_start, Option.map_some, if_pos rfl]
  · rcases drawnRows_cases hp with ⟨hstart, _⟩ | ⟨_, tile, htile, hc⟩
    · exact hstart.symm
    · have hglyph := legend.drawn_mem_glyphs (h.builtin_at htile)
      rw [hc] at hglyph
      exact absurd hglyph (notMem_builtinGlyphs hbuiltin hdot)

/-- Without a legend a tile that is not custom is read back from what it is drawn with. -/
theorem IsPlain.tile_drawn {p : Position} {tile : Tile} (htile : level.tileAt? p = some tile) :
    Classifier.tile ⟨Legend.empty, marker⟩ (Legend.empty.drawn tile) = tile := by
  have hknown : ∀ custom, tile = .custom custom →
      ∃ entry ∈ Legend.empty.entries, entry.tile = custom :=
    fun custom heq => absurd heq (h.builtin_at htile custom)
  rcases Classifier.tile_drawn ⟨Legend.empty, marker⟩ hbuiltin ⟨.nil, nofun⟩ hknown with
    ⟨hread, _⟩ | ⟨_, hmarker | hlegend⟩ | ⟨custom, heq, _⟩
  · exact hread
  · exact absurd hmarker hdot
  · exact absurd hlegend Bool.false_ne_true
  · exact absurd heq (h.builtin_at htile custom)

/-- The rows of the drawing draw the level. -/
theorem draws_drawnRows :
    Draws ⟨Legend.empty, marker⟩ (level.drawnRows Legend.empty marker) level := by
  have hshape := level.shape_drawnRows Legend.empty marker
  refine ⟨h.standsOnlyAt_start hbuiltin hdot _, h.floor, ?_, fun tiles htiles => ?_,
    fun p => ?_⟩
  · have hlength := congrArg List.length hshape
    rw [List.length_map, List.length_map] at hlength
    exact hlength.symm
  · -- All rows have one length, so each is a longest one.
    rw [hshape, List.max?_eq_some_iff]
    refine ⟨List.mem_map.mpr ⟨tiles, htiles, rfl⟩, fun length hlength => ?_⟩
    rcases List.mem_map.mp hlength with ⟨other, hmem, rfl⟩
    rw [h.rectangular other hmem, h.rectangular tiles htiles]
  · rw [charAt?_drawnRows, tile_eq]
    cases htile : level.tileAt? p with
    | none => rfl
    | some tile =>
        rw [Option.map_some, Option.map_some, Option.getD_some, Option.getD_some]
        by_cases hstart : level.start = p
        · -- The marker hides the tile below it, which is floor like the marker.
          rw [← hstart, h.tileAt?_start, Option.some.injEq] at htile
          rw [if_pos hstart, ← htile]
          exact (Classifier.tile_startMarker ⟨Legend.empty, marker⟩).symm
        · rw [if_neg hstart]
          exact (h.tile_drawn hbuiltin hdot htile).symm

end Marker

end Plain

end Level

/-- The drawing of a plain level compiles to the level, without a legend and without
    warnings, for every marker of a valid configuration but the dot and the byte order mark. -/
theorem compile_drawing {level : Level} (h : level.IsPlain) {config : Config}
    (hvalid : config.isValid = true) (hdot : config.startMarker ≠ '.')
    (hmark : config.startMarker ≠ Text.byteOrderMark) :
    compile (level.drawing Legend.empty config.startMarker).toList config.compileOptions =
      .ok ⟨level, Legend.empty, []⟩ := by
  rcases Config.marker_of_isValid hvalid with ⟨hvisible, hdash, hbuiltin⟩
  rw [compile, Level.ofText_drawing h hvisible hdash hmark]
  refine Source.compile_eq_ok_iff.mpr ⟨rfl, ?_, rfl, fun _ => rfl⟩
  exact assemble_ok_iff_draws.mpr (Level.draws_drawnRows h hbuiltin hdot)

/-- A level with a tile of each kind that needs no legend. -/
def plainLevel : Level :=
  ⟨[[.empty, .finish, .rustyFloor], [.floor, .floor, .empty]], ⟨1, 0⟩⟩

def plainConfig : Config := { startMarker := '@', strict := true }

theorem plain_compile_drawing :
    plainLevel.IsPlain ∧ plainConfig.isValid = true ∧ plainConfig.startMarker ≠ '.' ∧
      plainConfig.startMarker ≠ Text.byteOrderMark ∧
      compile (plainLevel.drawing Legend.empty plainConfig.startMarker).toList
          plainConfig.compileOptions =
        .ok ⟨plainLevel, Legend.empty, []⟩ :=
  have hplain : plainLevel.IsPlain :=
    { rectangular := by decide
      builtin := by simp [plainLevel]
      row := by decide
      column := by decide
      floor := by decide }
  ⟨hplain, by decide, by decide, by decide,
    compile_drawing hplain (by decide) (by decide) (by decide)⟩

end PuzzleLevel
