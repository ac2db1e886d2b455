import PuzzleLevel.Proofs.Assembly
import PuzzleLevel.Proofs.Legend.Binding

/-!
# Editing One Cell of a Map

Whoever edits a level changes one character of its map and expects one tile to change. This
is so as long as nothing else looks for the character that goes or for the one that comes.
Two things do look for characters all over the map: the legend, for those that its
placeholders name, and the assembly, for the start marker. Both ask for the occurrences of
a character and for nothing else of the map, and both are refused if there is not exactly
one. Any other character may stand in the map as often as it likes.

An edit changes the occurrences of two characters and leaves those of all others as they
are, in their order. So a legend that names neither of the two is the same for the edited
map, whether it can be made or not. The edit also keeps the lengths of all rows, and with
them the width to which they are filled.

## Main definitions

* `setChar`: A map with one character replaced.
* `Legend.references`: The characters that the placeholders of a legend name.
* `Level.SameButAt`: A level is another one with one tile replaced.

## Theorems

* `charAt?_setChar_self`, `charAt?_setChar_of_ne`: What an edited map has at a position.
* `occurrences_setChar`: The occurrences of other characters stay.
* `resolve_congr`: A legend depends on the occurrences of its references only.
* `SameButAt.unique`: There is one level with a tile replaced.
* `assemble_setChar`: An edited map draws the level with one tile replaced.
* `setChar_local`: An edit changes one tile and leaves the legend as it is.
-/

namespace PuzzleLevel

/-- The map with another character at a position, if it has one there. -/
def setChar (rows : List (List Char)) (p : Position) (new : Char) : List (List Char) :=
  rows.modify p.row fun cells => cells.set p.column new

section Edited

variable {rows : List (List Char)} {p : Position} {old : Char} (new : Char)

theorem charAt?_setChar_self (h : charAt? rows p = some old) :
    charAt? (setChar rows p new) p = some new := by
  unfold charAt? at h
  rw [Option.bind_eq_some_iff] at h
  rcases h with ⟨cells, hrow, hcell⟩
  have hcolumn : p.column < cells.length := (List.getElem?_eq_some_iff.mp hcell).1
  unfold charAt? setChar
  rw [List.getElem?_modify_eq, hrow, Option.map_eq_map, Option.map_some, Option.bind_some,
    List.getElem?_set_self hcolumn]

theorem charAt?_setChar_of_ne {q : Position} (h : q ≠ p) :
    charAt? (setChar rows p new) q = charAt? rows q := by
  unfold charAt? setChar
  by_cases hrow : q.row = p.row
  · -- Within the edited row the columns differ.
    have hcolumn : p.column ≠ q.column := by
      intro hcolumn
      cases p
      cases q
      exact h (congrArg₂ Position.mk hrow hcolumn.symm)
    rw [hrow, List.getElem?_modify_eq]
    cases rows[p.row]? with
    | none => rfl
    | some cells =>
        rw [Option.map_eq_map, Option.map_some, Option.bind_some, Option.bind_some,
          List.getElem?_set_ne hcolumn]
  · rw [List.getElem?_modify_ne _ _ (Ne.symm hrow)]

/-- The occurrences of a character stay if it neither goes nor comes. -/
theorem occurrences_setChar (h : charAt? rows p = some old) {c : Char} (hold : c ≠ old)
    (hnew : c ≠ new) : occurrences (setChar rows p new) c = occurrences rows c := by
  refine occurrences_congr fun q => ?_
  by_cases hq : q = p
  · -- Neither map has it at the edited position.
    rw [hq, charAt?_setChar_self new h, h, Option.some.injEq, Option.some.injEq]
    exact iff_of_false (Ne.symm hnew) (Ne.symm hold)
  · rw [charAt?_setChar_of_ne new hq]

theorem lengths_setChar : (setChar rows p new).map List.length = rows.map List.length := by
  refine List.ext_getElem? fun i => ?_
  rw [List.getElem?_map, List.getElem?_map, setChar, List.getElem?_modify]
  cases rows[i]? with
  | none => rfl
  | some cells =>
      simp only [Option.map_eq_map, Option.map_some]
      by_cases hrow : p.row = i
      · rw [if_pos hrow, List.length_set]
      · rw [if_neg hrow]

end Edited

section References

/-- The characters that the placeholders of a line name, if it can be read. -/
def NumberedLine.references (line : NumberedLine) : List Char :=
  match LegendLine.read line with
  | .error _ => []
  | .ok parsed => parsed.expr.placeholders

/-- The characters that the placeholders of a legend name, line by line. -/
def Legend.references (lines : List NumberedLine) : List Char :=
  lines.flatMap NumberedLine.references

variable {rows other : List (List Char)}

theorem lookupAll_congr {targets : List Char}
    (h : ∀ c ∈ targets, occurrences other c = occurrences rows c) (symbol : Char) :
    lookupAll other symbol targets = lookupAll rows symbol targets := by
  induction targets with
  | nil => rfl
  | cons c more ih =>
      rw [List.forall_mem_cons] at h
      rw [lookupAll, lookupAll, ih h.2, lookup_eq, lookup_eq, h.1]

/-- The tile of an expression depends on the occurrences of its placeholders only. -/
theorem Expr.tile_congr {e : Expr}
    (h : ∀ c ∈ e.placeholders, occurrences other c = occurrences rows c) (symbol : Char) :
    e.tile other symbol = e.tile rows symbol := by
  by_cases hshape : e.Supported
  · rcases hshape with ⟨tile, hdescribes⟩
    rw [tile_of_describes hdescribes, tile_of_describes hdescribes, lookupAll_congr h]
  · rw [tile_of_not_supported hshape, tile_of_not_supported hshape]

namespace Legend

theorem addLine_congr {line : NumberedLine}
    (h : ∀ c ∈ line.references, occurrences other c = occurrences rows c) (legend : Legend) :
    addLine other legend line = addLine rows legend line := by
  unfold NumberedLine.references at h
  unfold addLine readLine
  cases hread : LegendLine.read line with
  | error fault => rfl
  | ok parsed =>
      rw [hread] at h
      have hbind : parsed.bind other = parsed.bind rows := by
        rw [LegendLine.bind, LegendLine.bind, Expr.tile_congr h]
      simp only [hbind]

theorem addLines_congr {lines : List NumberedLine}
    (h : ∀ c ∈ references lines, occurrences other c = occurrences rows c) (legend : Legend) :
    addLines other legend lines = addLines rows legend lines := by
  induction lines generalizing legend with
  | nil => rfl
  | cons line more ih =>
      have hline : ∀ c ∈ line.references, occurrences other c = occurrences rows c :=
        fun c hc => h c (List.mem_append_left _ hc)
      have hmore : ∀ c ∈ references more, occurrences other c = occurrences rows c :=
        fun c hc => h c (List.mem_append_right _ hc)
      rw [addLines, addLines, addLine_congr hline]
      cases addLine rows legend line with
      | error error => rfl
      | ok next => exact ih hmore next

/-- A legend depends on the occurrences of its references only, and so does its fault if it
    cannot be made. -/
theorem resolve_congr {lines : List NumberedLine}
    (h : ∀ c ∈ references lines, occurrences other c = occurrences rows c) :
    resolve other lines = resolve rows lines :=
  addLines_congr h empty

end Legend

end References

/-- A level is another one with one tile replaced. -/
structure Level.SameButAt (level : Level) (p : Position) (tile : Tile) (other : Level) :
    Prop where
  start : other.start = level.start
  /-- There are as many rows, of the same lengths. -/
  shape : other.tiles.map List.length = level.tiles.map List.length
  here : other.tile p = tile
  elsewhere : ∀ q, q ≠ p → other.tile q = level.tile q

/-- There is no choice of the level with a tile replaced. -/
theorem Level.SameButAt.unique {level other another : Level} {p : Position} {tile : Tile}
    (h : level.SameButAt p tile other) (hanother : level.SameButAt p tile another) :
    another = other := by
  have hshape := hanother.shape.trans h.shape.symm
  have hheight : another.tiles.length = other.tiles.length := by
    rw [← List.length_map (f := List.length), hshape, List.length_map]
  have htiles : another.tiles = other.tiles := by
    refine tiles_ext hheight (fun i hi hother => ?_) fun q => ?_
    · have hrow := congrArg (fun lengths => lengths[i]?) hshape
      simpa only [List.getElem?_map, List.getElem?_eq_getElem hi, List.getElem?_eq_getElem hother,
        Option.map_some, Option.some.injEq] using hrow
    · by_cases hq : q = p
      · rw [hq, hanother.here, h.here]
      · rw [hanother.elsewhere q hq, h.elsewhere q hq]
  have hstart := hanother.start.trans h.start.symm
  cases other
  cases another
  exact congrArg₂ Level.mk htiles hstart

/-- The width of a map is told by the lengths of its rows. -/
theorem mapWidth_eq_foldr (rows : List (List Char)) :
    mapWidth rows = (rows.map List.length).foldr max 0 := by
  rw [mapWidth, List.foldr_map]

/-- All rows of a grid have the width of the map, so its shape is told by those of the map. -/
theorem lengths_tileGrid (classifier : Classifier) (rows : List (List Char)) :
    (tileGrid classifier rows).map List.length =
      (rows.map List.length).map fun _ => mapWidth rows := by
  rw [tileGrid, List.map_map, List.map_map, List.map_inj_left]
  intro row hrow
  exact length_tileRow classifier (length_le_mapWidth hrow)

/-- An edited map draws the level with one tile replaced, if the start marker neither goes
    nor comes. -/
theorem assemble_setChar {classifier : Classifier} {rows : List (List Char)} {level : Level}
    {p : Position} {old : Char} (new : Char) (hlevel : assemble classifier rows = .ok level)
    (hchar : charAt? rows p = some old) (hold : old ≠ classifier.startMarker)
    (hnew : new ≠ classifier.startMarker) :
    ∃ other, assemble classifier (setChar rows p new) = .ok other ∧
      level.SameButAt p (classifier.tile new) other := by
  rcases assemble_eq_ok_iff.mp hlevel with ⟨hstart, htiles⟩
  -- The start marker is neither of the two characters, so it is found where it was.
  rw [← occurrences_setChar new hchar (Ne.symm hold) (Ne.symm hnew)] at hstart
  refine ⟨⟨tileGrid classifier (setChar rows p new), level.start⟩,
    assemble_eq_ok_iff.mpr ⟨hstart, rfl⟩, rfl, ?_, ?_, fun q hq => ?_⟩
  · rw [htiles, lengths_tileGrid, lengths_tileGrid, mapWidth_eq_foldr, lengths_setChar,
      ← mapWidth_eq_foldr]
  · rw [tile_of_tileGrid rfl, charAt?_setChar_self new hchar, Option.map_some, Option.getD_some]
  · rw [tile_of_tileGrid rfl, tile_of_tileGrid htiles, charAt?_setChar_of_ne new hq]

/-- For every map, legend and start marker that give a level, and every cell of the map: if
    neither the character there nor the one that replaces it is the start marker or is named
    by a placeholder of the legend, the edited map has the same legend and gives a level, and
    this is the old one with one tile replaced by that of the new character. -/
theorem setChar_local {rows : List (List Char)} {lines : List NumberedLine} {marker : Char}
    {legend : Legend} {level : Level} {p : Position} {old new : Char}
    (hlegend : Legend.resolve rows lines = .ok legend)
    (hlevel : assemble ⟨legend, marker⟩ rows = .ok level)
    (hchar : charAt? rows p = some old)
    (hold : old ≠ marker ∧ old ∉ Legend.references lines)
    (hnew : new ≠ marker ∧ new ∉ Legend.references lines) :
    Legend.resolve (setChar rows p new) lines = .ok legend ∧
      (∃ other, assemble ⟨legend, marker⟩ (setChar rows p new) = .ok other) ∧
      ∀ other, assemble ⟨legend, marker⟩ (setChar rows p new) = .ok other ↔
        level.SameButAt p (Classifier.tile ⟨legend, marker⟩ new) other := by
  -- What the legend names is neither of the two characters.
  have hreferred : ∀ c ∈ Legend.references lines,
      occurrences (setChar rows p new) c = occurrences rows c := by
    intro c hc
    refine occurrences_setChar new hchar ?_ ?_
    · rintro rfl
      exact hold.2 hc
    · rintro rfl
      exact hnew.2 hc
  rcases assemble_setChar new hlevel hchar hold.1 hnew.1 with ⟨other, hother, hsame⟩
  refine ⟨(Legend.resolve_congr hreferred).trans hlegend, ⟨other, hother⟩, fun another => ?_⟩
  constructor
  · intro hanother
    rw [hother, Except.ok.injEq] at hanother
    rwa [← hanother]
  · intro hanother
    rw [hother, hsame.unique hanother]

/-- A map with two doors that act on one of its corners, and with an entry in its legend that
    is not used yet. -/
def doorsRows : List (List Char) := ["SAA".toList, "B".toList]

def doorsLines : List NumberedLine := [⟨4, "A: Door(@B)".toList⟩, ⟨5, "C: Ice".toList⟩]

def doorsTile : CustomTile := ⟨"Door", some (.trigger ⟨"Door", [⟨1, 0⟩]⟩)⟩

def doorsLegend : Legend := ⟨[⟨'A', doorsTile, 4⟩, ⟨'C', ⟨"Ice", none⟩, 5⟩]⟩

def doorsLevel : Level where
  tiles := [[.floor, .custom doorsTile, .custom doorsTile], [.empty, .empty, .empty]]
  start := ⟨0, 0⟩

/-- With ice in place of the second door, the first one still acts on its corner. -/
theorem doors_setChar_local :
    Legend.resolve doorsRows doorsLines = .ok doorsLegend ∧
      assemble ⟨doorsLegend, 'S'⟩ doorsRows = .ok doorsLevel ∧
      charAt? doorsRows ⟨0, 2⟩ = some 'A' ∧
      ('A' ≠ 'S' ∧ 'A' ∉ Legend.references doorsLines) ∧
      ('C' ≠ 'S' ∧ 'C' ∉ Legend.references doorsLines) ∧
      setChar doorsRows ⟨0, 2⟩ 'C' = ["SAC".toList, "B".toList] ∧
      Legend.resolve ["SAC".toList, "B".toList] doorsLines = .ok doorsLegend ∧
      ∃ other, assemble ⟨doorsLegend, 'S'⟩ ["SAC".toList, "B".toList] = .ok other ∧
        doorsLevel.SameButAt ⟨0, 2⟩ (.custom ⟨"Ice", none⟩) other := by
  have hlegend : Legend.resolve doorsRows doorsLines = .ok doorsLegend := by decide +kernel
  have hlevel : assemble ⟨doorsLegend, 'S'⟩ doorsRows = .ok doorsLevel := by decide +kernel
  have hold : 'A' ≠ 'S' ∧ 'A' ∉ Legend.references doorsLines := by decide +kernel
  have hnew : 'C' ≠ 'S' ∧ 'C' ∉ Legend.references doorsLines := by decide +kernel
  rcases @setChar_local _ _ 'S' _ _ ⟨0, 2⟩ 'A' 'C' hlegend hlevel rfl hold hnew with
    ⟨hsame, ⟨other, hother⟩, hlocal⟩
  exact ⟨hlegend, hlevel, rfl, hold, hnew, rfl, hsame, other, hother, (hlocal other).mp hother⟩

end PuzzleLevel
