import PuzzleLevel.Proofs.Compile
import PuzzleLevel.Proofs.Level.Decoding

/-!
# How Far a Compiled Level Reaches

Every position in a compiled level is one where the text has a character: the start is
that of the marker, and a trigger acts on places of placeholders. A row number counts
lines and a column counts characters, so neither can reach the length of the text. A
text that a machine can hold therefore gives a level whose positions fit into fields of
64 bits.

## Theorems

* `length_lines_le`, `length_le_of_mem_lines`: A text has no more lines, and none that is
  longer, than it has characters.
* `charAt?_lt`: A position of the map is less than the length of the text.
* `fits_of_compile`: The positions of a compiled level fit if the text does.
-/

namespace PuzzleLevel

namespace Text

/-- Every line takes up a character. -/
theorem length_lines_le (s : List Char) : (lines s).length ≤ s.length := by
  fun_induction lines s with
  | case1 => exact Nat.le_refl 0
  | case2 rest ih => exact Nat.succ_le_succ ih
  | case3 rest ih =>
      rw [List.length_cons, List.length_cons, List.length_cons]
      omega
  | case4 c rest hfeed hreturn hlines ih =>
      rw [List.length_singleton, List.length_cons]
      omega
  | case5 c rest hfeed hreturn line more hlines ih =>
      rw [hlines] at ih
      rw [List.length_cons] at ih ⊢
      exact Nat.le_succ_of_le ih

theorem length_le_of_mem_lines {s line : List Char} (h : line ∈ lines s) :
    line.length ≤ s.length := by
  fun_induction lines s generalizing line with
  | case1 => exact absurd h List.not_mem_nil
  | case2 rest ih =>
      rcases List.mem_cons.mp h with rfl | hmore
      · exact Nat.zero_le _
      · exact Nat.le_succ_of_le (ih hmore)
  | case3 rest ih =>
      rcases List.mem_cons.mp h with rfl | hmore
      · exact Nat.zero_le _
      · exact Nat.le_succ_of_le (Nat.le_succ_of_le (ih hmore))
  | case4 c rest hfeed hreturn hlines ih =>
      rw [List.mem_singleton.mp h, List.length_singleton, List.length_cons]
      omega
  | case5 c rest hfeed hreturn first more hlines ih =>
      rw [hlines] at ih
      rcases List.mem_cons.mp h with rfl | hmore
      · exact Nat.succ_le_succ (ih (List.mem_cons_self ..))
      · exact Nat.le_succ_of_le (ih (List.mem_cons_of_mem _ hmore))

theorem length_withoutMark_le (s : List Char) : (withoutMark s).length ≤ s.length := by
  fun_cases withoutMark s with
  | case1 rest => exact Nat.le_succ _
  | case2 c rest hmark => exact Nat.le_refl _
  | case3 => exact Nat.le_refl _

end Text

/-- A position of the map is less than the length of the text. -/
theorem charAt?_lt {text : List Char} {p : Position} {c : Char}
    (h : charAt? (Source.ofText text).rows p = some c) :
    p.row < text.length ∧ p.column < text.length := by
  unfold charAt? at h
  rw [Option.bind_eq_some_iff] at h
  rcases h with ⟨cells, hrow, hcell⟩
  have hmark := Text.length_withoutMark_le text
  have hrows : (Source.ofText text).rows.Sublist (Text.lines (Text.withoutMark text)) :=
    List.takeWhile_sublist _
  have hlength := hrows.length_le
  have hlines := Text.length_lines_le (Text.withoutMark text)
  have hcells := Text.length_le_of_mem_lines (hrows.subset (List.mem_of_getElem? hrow))
  have hrowLt := (List.getElem?_eq_some_iff.mp hrow).1
  have hcolumnLt := (List.getElem?_eq_some_iff.mp hcell).1
  exact ⟨by omega, by omega⟩

/-- A position of the map fits if the text does. -/
theorem fits_of_charAt? {text : List Char} (hsize : text.length < Json.nat64Bound) {p : Position}
    {c : Char} (h : charAt? (Source.ofText text).rows p = some c) : p.Fits :=
  ⟨Nat.lt_trans (charAt?_lt h).1 hsize, Nat.lt_trans (charAt?_lt h).2 hsize⟩

/-- Every tile of the grid stands at some position. -/
theorem Level.exists_tile {level : Level} {row : List Tile} (hrow : row ∈ level.tiles)
    {tile : Tile} (htile : tile ∈ row) : ∃ p, level.tile p = tile := by
  rcases List.getElem?_of_mem hrow with ⟨i, hi⟩
  rcases List.getElem?_of_mem htile with ⟨j, hj⟩
  refine ⟨⟨i, j⟩, ?_⟩
  rw [Level.tile, hi, Option.bind_some, hj, Option.getD_some]

/-- The positions of a compiled level fit if the text does. -/
theorem fits_of_compile {text : List Char} {options : CompileOptions} {compiled : Compiled}
    (hsize : text.length < Json.nat64Bound) (h : compile text options = .ok compiled) :
    compiled.level.Fits := by
  unfold compile at h
  refine ⟨fun row hrow tile htile => ?_, ?_⟩
  · cases tile with
    | custom tile =>
        rcases Level.exists_tile hrow htile with ⟨p, hp⟩
        rcases Source.line_of_custom h hp with ⟨line, parsed, _, _, _, hbound⟩
        intro q hq
        rcases occurrences_of_mem_targets hbound hq with ⟨c, honly⟩
        exact fits_of_charAt? hsize (standsOnlyAt_of_occurrences honly).here
    | _ => trivial
  · have hlevel := (Source.compile_eq_ok_iff.mp h).2.1
    exact fits_of_charAt? hsize
      (standsOnlyAt_of_occurrences (assemble_eq_ok_iff.mp hlevel).1).here

end PuzzleLevel
