import PuzzleLevel.Compile
import PuzzleLevel.Proofs.Assembly
import PuzzleLevel.Proofs.Legend.Resolution

/-!
# What the Custom Tiles of a Level Refer To

A custom tile stands in the grid because of a character in the map, means what one line
of the legend says, and acts on places that this line names by other characters of the
map. The places are looked up before there is a grid, in rows of any lengths, and yet
all of them lie in it.

The legend, the map and the grid are each treated by themselves elsewhere. Here the
three are put together, for any text that compiles.

## Main definitions

* `Source.Binds`: What a placeholder is bound to.

## Theorems

* `compile_eq_ok_iff`: When a text compiles, and to what.
* `line_of_custom`: A custom tile comes from the only line of its character.
* `reference_integrity`: Every custom tile of a compiled level comes from one line, and
  acts on the places of its placeholders.
-/

namespace PuzzleLevel

/-- When the sections of a level compile, and to what. -/
theorem Source.compile_eq_ok_iff {source : Source} {options : CompileOptions}
    {compiled : Compiled} :
    source.compile options = .ok compiled ↔
      Legend.resolve source.rows source.legend = .ok compiled.legend ∧
        assemble ⟨compiled.legend, options.startMarker⟩ source.rows = .ok compiled.level ∧
        compiled.warnings = PuzzleLevel.warnings ⟨compiled.legend, options.startMarker⟩ source.rows ∧
        (options.strict = true → compiled.warnings = []) := by
  constructor
  · fun_cases Source.compile source options with
    | case1 error hlegend => exact nofun
    | case2 legend hlegend classifier error hlevel => exact nofun
    | case3 legend hlegend classifier level hlevel found hstrict => exact nofun
    | case4 legend hlegend classifier level hlevel found hstrict =>
        intro h
        rw [Except.ok.injEq] at h
        rw [← h]
        refine ⟨hlegend, hlevel, rfl, fun hoption => ?_⟩
        by_contra hfound
        exact hstrict (by simpa [hoption] using hfound)
  · rcases compiled with ⟨level, legend, found⟩
    rintro ⟨hlegend, hlevel, hwarnings, hstrict⟩
    simp only at hlegend hlevel hwarnings hstrict
    have haccept : ¬ (options.strict && !found.isEmpty) = true := by
      rw [Bool.and_eq_true]
      rintro ⟨hoption, hfound⟩
      rw [hstrict hoption] at hfound
      exact absurd hfound (by decide)
    unfold Source.compile
    simp only [hlegend, hlevel, ← hwarnings, if_neg haccept]

/-- A placeholder is bound to a place of the grid, at which its character stands in the
    map and nowhere else. For the start marker it is the place where play starts. -/
structure Source.Binds (source : Source) (options : CompileOptions) (level : Level) (c : Char)
    (p : Position) : Prop where
  row : p.row < level.height
  column : p.column < level.width
  only : StandsOnlyAt source.rows c p
  start : c = options.startMarker → p = level.start

/-- A character with one occurrence in the map of a level can be referred to. -/
theorem Source.binds_of_occurrences {source : Source} {options : CompileOptions}
    {compiled : Compiled} (h : source.compile options = .ok compiled) {c : Char} {p : Position}
    (honly : occurrences source.rows c = [p]) : source.Binds options compiled.level c p := by
  rcases Source.compile_eq_ok_iff.mp h with ⟨_, hlevel, _, _⟩
  rcases assemble_eq_ok_iff.mp hlevel with ⟨hstart, htiles⟩
  have hstands := standsOnlyAt_of_occurrences honly
  have hbounds := charAt?_bounds hstands.here
  refine ⟨?_, ?_, hstands, fun hmarker => ?_⟩
  · rw [height_of_tileGrid htiles]
    exact hbounds.1
  · rw [width_of_tileGrid htiles]
    exact hbounds.2
  · rw [← hmarker, honly, List.cons.injEq] at hstart
    exact hstart.1

/-- A custom tile stands where the map has some character, and is what the only line that
    begins with this character was bound to. -/
theorem Source.line_of_custom {source : Source} {options : CompileOptions} {compiled : Compiled}
    {p : Position} {tile : CustomTile} (h : source.compile options = .ok compiled)
    (htile : compiled.level.tile p = .custom tile) :
    ∃ line parsed, charAt? source.rows p = some parsed.symbol ∧
      Legend.linesOf source.legend parsed.symbol = [line] ∧
      LegendLine.read line = .ok parsed ∧
      parsed.expr.tile source.rows parsed.symbol = .ok tile := by
  rcases Source.compile_eq_ok_iff.mp h with ⟨hlegend, hlevel, _, _⟩
  rcases assemble_eq_ok_iff.mp hlevel with ⟨_, htiles⟩
  rw [tile_of_tileGrid htiles] at htile
  cases hchar : charAt? source.rows p with
  | none =>
      rw [hchar] at htile
      exact absurd htile (by simp only [Option.map_none, Option.getD_none, reduceCtorEq,
        not_false_eq_true])
  | some c =>
      rw [hchar] at htile
      have hmeaning := Classifier.tile?_of_custom htile
      rw [Legend.tile?, Option.map_eq_some_iff] at hmeaning
      rcases hmeaning with ⟨entry, hentry, rfl⟩
      rcases (Legend.defines_of_resolve hlegend).defined c entry hentry with
        ⟨line, parsed, hline, hread, hbind⟩
      rcases bind_eq_ok_iff.mp hbind with ⟨hbound, hsymbol, _⟩
      have hc : entry.symbol = c := by simpa only [decide_eq_true_eq] using List.find?_some hentry
      rw [hsymbol] at hc
      subst hc
      exact ⟨line, parsed, rfl, hline, hread, hbound⟩

/-- Every custom tile of a compiled level stands where the map has some character. One
    line of the legend that is not blank begins with this character, its expression
    describes the tile and no other with the same places, and the tile acts on the places
    of the placeholders, from left to right. -/
theorem reference_integrity {text : List Char} {options : CompileOptions} {compiled : Compiled}
    {p : Position} {tile : CustomTile} (h : compile text options = .ok compiled)
    (htile : compiled.level.tile p = .custom tile) :
    ∃ c line e, charAt? (Source.ofText text).rows p = some c ∧
      Legend.linesOf (Source.ofText text).legend c = [line] ∧
      LegendLine.Spelling (Text.trim line.text) c e ∧
      e.Describes tile ∧
      (∀ other, e.Describes other → other.targets = tile.targets → other = tile) ∧
      List.Forall₂ ((Source.ofText text).Binds options compiled.level) e.placeholders
        tile.targets := by
  unfold compile at h
  rcases Source.line_of_custom h htile with ⟨line, parsed, hchar, hline, hread, hbound⟩
  rcases describes_of_tile hbound with ⟨hdescribes, htargets⟩
  exact ⟨parsed.symbol, line, parsed.expr, hchar, hline, (LegendLine.read_eq_ok_iff.mp hread).2,
    hdescribes, fun other hother hsame => hdescribes.unique hother hsame,
    htargets.imp fun _ _ honly => Source.binds_of_occurrences h honly⟩

/-- A map with a lever that acts on two corners of the map and on the start. -/
def leverText : List Char := "A.B\nSC#\n---\nC: Lever(@A,@B,@S)\n".toList

def leverTile : CustomTile := ⟨"Lever", some (.trigger ⟨"Lever", [⟨0, 0⟩, ⟨0, 2⟩, ⟨1, 0⟩]⟩)⟩

def leverCompiled : Compiled where
  level := ⟨[[.empty, .empty, .empty], [.floor, .custom leverTile, .floor]], ⟨1, 0⟩⟩
  legend := ⟨[⟨'C', leverTile, 4⟩]⟩
  warnings := []

theorem lever_reference_integrity :
    compile leverText {} = .ok leverCompiled ∧
      leverCompiled.level.tile ⟨1, 1⟩ = .custom leverTile ∧
      ∃ c line e, charAt? (Source.ofText leverText).rows ⟨1, 1⟩ = some c ∧
        Legend.linesOf (Source.ofText leverText).legend c = [line] ∧
        LegendLine.Spelling (Text.trim line.text) c e ∧
        e.Describes leverTile ∧
        (∀ other, e.Describes other → other.targets = leverTile.targets → other = leverTile) ∧
        List.Forall₂ ((Source.ofText leverText).Binds {} leverCompiled.level) e.placeholders
          leverTile.targets :=
  ⟨by decide +kernel, rfl, reference_integrity (by decide +kernel) rfl⟩

end PuzzleLevel
