import PuzzleLevel.Assembly
import PuzzleLevel.Proofs.Occurrences

/-!
# The Grid of a Map

The rows of a map can have any lengths, and the grid made of them is a rectangle: as
high as there are rows, and as wide as the longest. A position of the map is therefore
one of the grid, and the tile there is the one that the character stands for. What the
grid has beyond the map is empty.

What the level of a map has to be can be said without a word on how it is made: by its
height, its width, its tiles and its start. `Draws` says that much and no more, and it
leaves no choice. Two grids of one shape that have the same tile everywhere are one grid,
so a map draws one level, and it is the one that is assembled.

A map that draws no level has its start marker nowhere or at several places. The places that
are reported then come from a search of the map, and references of a legend are looked up in
an index that is made in one reading of it. Both have the same places in the same order.

## Main definitions

* `Draws`: A level is the one that a map draws.

## Theorems

* `charAt?_bounds`: A position of the map lies in the rectangle around it.
* `assemble_eq_ok_iff`: The level that a map draws.
* `width_of_tileGrid`: The grid is as wide as the longest row.
* `tile_of_tileGrid`: A tile of the grid is that of its character.
* `tile?_of_custom`: A custom tile is what the legend says of its character.
* `assemble_congr`: Legends that say the same give the same level.
* `tiles_ext`: Grids of one shape with the same tiles are equal.
* `assemble_ok_iff_draws`: A level is assembled exactly if the map draws it.
* `assemble_exact`: What becomes of any map, with one start marker, none or several.
-/

namespace PuzzleLevel

theorem mapWidth_cons (row : List Char) (more : List (List Char)) :
    mapWidth (row :: more) = max row.length (mapWidth more) := rfl

theorem length_le_mapWidth {rows : List (List Char)} {row : List Char} (h : row ∈ rows) :
    row.length ≤ mapWidth rows := by
  induction rows with
  | nil => exact absurd h List.not_mem_nil
  | cons first more ih =>
      rw [mapWidth_cons]
      rcases List.mem_cons.mp h with rfl | hmore
      · exact Nat.le_max_left _ _
      · exact Nat.le_trans (ih hmore) (Nat.le_max_right _ _)

/-- A position of the map lies in the rectangle around it. -/
theorem charAt?_bounds {rows : List (List Char)} {p : Position} {c : Char}
    (h : charAt? rows p = some c) : p.row < rows.length ∧ p.column < mapWidth rows := by
  unfold charAt? at h
  rw [Option.bind_eq_some_iff] at h
  rcases h with ⟨cells, hrow, hcell⟩
  have hcolumn : p.column < cells.length := (List.getElem?_eq_some_iff.mp hcell).1
  have hwidth := length_le_mapWidth (List.mem_of_getElem? hrow)
  exact ⟨(List.getElem?_eq_some_iff.mp hrow).1, by omega⟩

theorem length_tileRow (classifier : Classifier) {width : Nat} {row : List Char}
    (h : row.length ≤ width) : (tileRow classifier width row).length = width := by
  rw [tileRow, List.length_append, List.length_map, List.length_replicate]
  omega

/-- The level that a map draws: its grid, and the only place of the start marker. -/
theorem assemble_eq_ok_iff {classifier : Classifier} {rows : List (List Char)} {level : Level} :
    assemble classifier rows = .ok level ↔
      occurrences rows classifier.startMarker = [level.start] ∧
        level.tiles = tileGrid classifier rows := by
  unfold assemble
  rcases level with ⟨tiles, start⟩
  cases occurrences rows classifier.startMarker with
  | nil => simp only [reduceCtorEq, false_and]
  | cons first more =>
      cases more with
      | nil =>
          simp only [Except.ok.injEq, Level.mk.injEq, List.cons.injEq, and_true]
          constructor
          · rintro ⟨htiles, hstart⟩
            exact ⟨hstart, htiles.symm⟩
          · rintro ⟨hstart, htiles⟩
            exact ⟨htiles.symm, hstart⟩
      | cons second rest =>
          simp only [reduceCtorEq, List.cons.injEq, and_false, false_and]

section Grid

variable {classifier : Classifier} {rows : List (List Char)} {level : Level}

theorem height_of_tileGrid (h : level.tiles = tileGrid classifier rows) :
    level.height = rows.length := by
  rw [Level.height, h, tileGrid, List.length_map]

/-- The grid is as wide as the longest row. -/
theorem width_of_tileGrid (h : level.tiles = tileGrid classifier rows) :
    level.width = mapWidth rows := by
  rw [Level.width, h, tileGrid, List.head?_map]
  cases rows with
  | nil => rfl
  | cons first more =>
      exact length_tileRow classifier (length_le_mapWidth (List.mem_cons_self ..))

/-- A tile of the grid is that of its character, and empty where there is none. -/
theorem tile_of_tileGrid (h : level.tiles = tileGrid classifier rows) (p : Position) :
    level.tile p = ((charAt? rows p).map classifier.tile).getD .empty := by
  unfold Level.tile charAt?
  rw [h, tileGrid, List.getElem?_map]
  cases rows[p.row]? with
  | none => rfl
  | some cells =>
      rw [Option.map_some, Option.bind_some, Option.bind_some, tileRow]
      by_cases hcell : p.column < cells.length
      · rw [List.getElem?_append_left (by rwa [List.length_map]), List.getElem?_map]
      · -- To the right of its characters a row is filled with empty tiles.
        rw [List.getElem?_append_right (by rw [List.length_map]; omega),
          List.getElem?_eq_none (Nat.le_of_not_lt hcell), List.getElem?_replicate]
        by_cases hfill : p.column - (cells.map classifier.tile).length <
            mapWidth rows - cells.length
        · rw [if_pos hfill]
          rfl
        · rw [if_neg hfill]
          rfl

end Grid

/-- A custom tile is what the legend says of its character. -/
theorem Classifier.tile?_of_custom {classifier : Classifier} {c : Char} {tile : CustomTile}
    (h : classifier.tile c = .custom tile) : classifier.legend.tile? c = some tile := by
  revert h
  fun_cases Classifier.tile classifier c with
  | case1 => exact nofun
  | case2 => exact nofun
  | case3 => exact nofun
  | case4 => exact nofun
  | case5 hfloor hstart hfinish hrusty found hfound =>
      intro h
      rw [Tile.custom.injEq] at h
      rw [hfound, h]
  | case6 => exact nofun

/-- Legends that say the same of every character give the same level. -/
theorem assemble_congr {legend other : Legend} {marker : Char}
    (h : ∀ c, other.tile? c = legend.tile? c) (rows : List (List Char)) :
    assemble ⟨other, marker⟩ rows = assemble ⟨legend, marker⟩ rows := by
  have htile : Classifier.tile ⟨other, marker⟩ = Classifier.tile ⟨legend, marker⟩ := by
    funext c
    unfold Classifier.tile
    rw [h c]
  unfold assemble tileGrid
  have hrow : tileRow ⟨other, marker⟩ = tileRow ⟨legend, marker⟩ := by
    funext width row
    rw [tileRow, tileRow, htile]
  rw [hrow]

/-- The start marker is floor, also where it is a character with a fixed meaning. -/
theorem Classifier.tile_startMarker (classifier : Classifier) :
    classifier.tile classifier.startMarker = .floor := by
  unfold Classifier.tile
  by_cases hfloor : classifier.startMarker = '#'
  · rw [if_pos hfloor]
  · rw [if_neg hfloor, if_pos rfl]

/-- The width of a map that has rows is the greatest of their lengths. -/
theorem max?_lengths {rows : List (List Char)} (h : rows ≠ []) :
    (rows.map List.length).max? = some (mapWidth rows) := by
  rw [List.max?_eq_some_iff]
  refine ⟨?_, fun length hlength => ?_⟩
  · induction rows with
    | nil => exact absurd rfl h
    | cons first more ih =>
        rw [List.map_cons, mapWidth_cons]
        rcases Nat.le_total (mapWidth more) first.length with hle | hle
        · rw [Nat.max_eq_left hle]
          exact List.mem_cons_self ..
        · -- A first row that is not the longest leaves it to the others, if there are any.
          rw [Nat.max_eq_right hle]
          by_cases hmore : more = []
          · rw [hmore] at hle ⊢
            rw [Nat.le_zero.mp hle]
            exact List.mem_cons_self ..
          · exact List.mem_cons_of_mem _ (ih hmore)
  · rcases List.mem_map.mp hlength with ⟨row, hrow, rfl⟩
    exact length_le_mapWidth hrow

/-- Grids of one shape with the same tile at every position are equal. -/
theorem Level.tiles_ext {a b : Level} (hheight : a.tiles.length = b.tiles.length)
    (hwidth : ∀ i (ha : i < a.tiles.length) (hb : i < b.tiles.length),
      a.tiles[i].length = b.tiles[i].length)
    (htile : ∀ p, a.tile p = b.tile p) : a.tiles = b.tiles := by
  refine List.ext_getElem hheight fun i ha hb => ?_
  refine List.ext_getElem (hwidth i ha hb) fun j hja hjb => ?_
  have h := htile ⟨i, j⟩
  unfold Level.tile at h
  simpa only [List.getElem?_eq_getElem ha, List.getElem?_eq_getElem hb, Option.bind_some,
    List.getElem?_eq_getElem hja, List.getElem?_eq_getElem hjb, Option.getD_some] using h

/-- A level is the one that a map draws. -/
structure Draws (classifier : Classifier) (rows : List (List Char)) (level : Level) : Prop where
  /-- Play starts where the start marker stands, and it stands nowhere else. -/
  start : StandsOnlyAt rows classifier.startMarker level.start
  /-- The tile below the start marker is floor. -/
  floor : level.tile level.start = .floor
  /-- There is a row of tiles for each row of the map. -/
  height : level.tiles.length = rows.length
  /-- Each of them has the length of the longest row of the map. -/
  width : ∀ tiles ∈ level.tiles, (rows.map List.length).max? = some tiles.length
  /-- A tile is that of its character, and empty where the map has none. -/
  tile : ∀ p, level.tile p = ((charAt? rows p).map classifier.tile).getD .empty

section Draws

variable {classifier : Classifier} {rows : List (List Char)} {level : Level}

/-- All rows of tiles are filled up to the length of the longest row. -/
theorem length_of_mem_tileGrid {tiles : List Tile} (h : tiles ∈ tileGrid classifier rows) :
    (rows.map List.length).max? = some tiles.length := by
  rcases List.mem_map.mp h with ⟨row, hrow, rfl⟩
  rw [length_tileRow classifier (length_le_mapWidth hrow)]
  exact max?_lengths (List.ne_nil_of_mem hrow)

/-- A map leaves no choice of the grid. -/
theorem Draws.tiles_eq (h : Draws classifier rows level) :
    level.tiles = tileGrid classifier rows := by
  have hheight : level.tiles.length = (tileGrid classifier rows).length := by
    rw [h.height, tileGrid, List.length_map]
  refine Level.tiles_ext (b := ⟨tileGrid classifier rows, level.start⟩) hheight
    (fun i hi hgrid => ?_) fun p => ?_
  · -- Both rows have the greatest length.
    have hlevel := h.width _ (List.getElem_mem hi)
    rw [length_of_mem_tileGrid (List.getElem_mem hgrid), Option.some.injEq] at hlevel
    exact hlevel.symm
  · rw [h.tile p, tile_of_tileGrid rfl]

/-- A level is assembled exactly if the map draws it. -/
theorem assemble_ok_iff_draws :
    assemble classifier rows = .ok level ↔ Draws classifier rows level := by
  rw [assemble_eq_ok_iff, occurrences_eq_singleton_iff]
  constructor
  · intro ⟨hstart, htiles⟩
    refine ⟨hstart, ?_, ?_, fun tiles hmem => ?_, tile_of_tileGrid htiles⟩
    · rw [tile_of_tileGrid htiles, hstart.here, Option.map_some, Option.getD_some,
        Classifier.tile_startMarker]
    · exact height_of_tileGrid htiles
    · rw [htiles] at hmem
      exact length_of_mem_tileGrid hmem
  · intro h
    exact ⟨h.start, h.tiles_eq⟩

/-- A map lacks a start exactly if the start marker is nowhere in it. -/
theorem assemble_missing_iff :
    assemble classifier rows = .error (.missing classifier.startMarker) ↔
      ∀ p, charAt? rows p ≠ some classifier.startMarker := by
  have hexact := (listsPlaces_occurrences rows classifier.startMarker).exact
  unfold assemble
  cases hplaces : occurrences rows classifier.startMarker with
  | nil =>
      rw [hplaces] at hexact
      simp only [true_iff]
      intro p hp
      exact absurd ((hexact p).mpr hp) List.not_mem_nil
  | cons first more =>
      rw [hplaces] at hexact
      have hfirst := (hexact first).mp (List.mem_cons_self ..)
      cases more with
      | nil =>
          simp only [reduceCtorEq, false_iff]
          exact fun hnone => hnone first hfirst
      | cons second rest =>
          simp only [Except.error.injEq, reduceCtorEq, false_iff]
          exact fun hnone => hnone first hfirst

/-- A map has several starts exactly if the start marker stands at two places. All its
    places are reported then. -/
theorem assemble_ambiguous_iff {places : List Position} :
    assemble classifier rows = .error (.ambiguous classifier.startMarker places) ↔
      places = occurrences rows classifier.startMarker ∧
        ∃ p q, p ≠ q ∧ charAt? rows p = some classifier.startMarker ∧
          charAt? rows q = some classifier.startMarker := by
  rcases listsPlaces_occurrences rows classifier.startMarker with ⟨hordered, hexact⟩
  unfold assemble
  cases hplaces : occurrences rows classifier.startMarker with
  | nil =>
      rw [hplaces] at hexact
      simp only [Except.error.injEq, reduceCtorEq, false_iff]
      intro ⟨_, p, _, _, hp, _⟩
      exact absurd ((hexact p).mpr hp) List.not_mem_nil
  | cons first more =>
      rw [hplaces] at hordered hexact
      cases more with
      | nil =>
          simp only [reduceCtorEq, false_iff]
          intro ⟨_, p, q, hne, hp, hq⟩
          -- Both would be the only place.
          exact hne ((List.mem_singleton.mp ((hexact p).mpr hp)).trans
            (List.mem_singleton.mp ((hexact q).mpr hq)).symm)
      | cons second rest =>
          have hbefore := (List.pairwise_cons.mp hordered).1 second (List.mem_cons_self ..)
          have htwo : ∃ p q, p ≠ q ∧ charAt? rows p = some classifier.startMarker ∧
              charAt? rows q = some classifier.startMarker := by
            refine ⟨first, second, ?_, (hexact first).mp (List.mem_cons_self ..),
              (hexact second).mp (List.mem_cons_of_mem _ (List.mem_cons_self ..))⟩
            intro heq
            rw [heq] at hbefore
            exact second.not_before_self hbefore
          simp only [Except.error.injEq, StartError.ambiguous.injEq, true_and, htwo, and_true]
          exact eq_comm

end Draws

/-- For any map, legend and start marker, a level is assembled exactly if the marker stands
    in the map once, and it is the one level that the map draws. Otherwise the marker is
    missing or ambiguous, and an ambiguous one is reported with all its places in the order
    of reading. They are those that the index of the map has for the marker, in which a
    reference to it from the legend is looked up. -/
theorem assemble_exact (classifier : Classifier) (rows : List (List Char)) :
    ((∃ level, assemble classifier rows = .ok level) ↔
        ∃ p, StandsOnlyAt rows classifier.startMarker p) ∧
      (∀ level, assemble classifier rows = .ok level ↔ Draws classifier rows level) ∧
      (assemble classifier rows = .error (.missing classifier.startMarker) ↔
        ∀ p, charAt? rows p ≠ some classifier.startMarker) ∧
      (∀ places, assemble classifier rows = .error (.ambiguous classifier.startMarker places) ↔
        places = (PositionIndex.ofRows rows).positions classifier.startMarker ∧
          ∃ p q, p ≠ q ∧ charAt? rows p = some classifier.startMarker ∧
            charAt? rows q = some classifier.startMarker) ∧
      (PositionIndex.ofRows rows).positions classifier.startMarker =
        occurrences rows classifier.startMarker ∧
      ListsPlaces rows classifier.startMarker (occurrences rows classifier.startMarker) := by
  have hindex := PositionIndex.positions_ofRows rows classifier.startMarker
  refine ⟨⟨?_, ?_⟩, fun level => assemble_ok_iff_draws, assemble_missing_iff, fun places => ?_,
    hindex, listsPlaces_occurrences rows classifier.startMarker⟩
  · intro ⟨level, h⟩
    exact ⟨level.start, (assemble_ok_iff_draws.mp h).start⟩
  · intro ⟨p, hp⟩
    exact ⟨⟨tileGrid classifier rows, p⟩,
      assemble_eq_ok_iff.mpr ⟨occurrences_eq_singleton_iff.mpr hp, rfl⟩⟩
  · -- The map is searched apart from its index, and both find the same.
    rw [hindex]
    exact assemble_ambiguous_iff

-- A finish can be the start marker, and a row that is too short is filled.
example : (assemble ⟨.empty, 'F'⟩ ["R".toList, "#F".toList]).toOption =
    some ⟨[[.rustyFloor, .empty], [.floor, .floor]], ⟨1, 1⟩⟩ := by decide +kernel

end PuzzleLevel
