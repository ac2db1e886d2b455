import PuzzleLevel.Proofs.Compile
import PuzzleLevel.Proofs.Legend.Entries
import PuzzleLevel.Proofs.Source

/-!
# Which Legend Entries Earn a Warning

A warning is earned by the look of an entry: its symbol has a fixed meaning, or does not
stand in the map. What it should tell is something about the level: the entry could as well
not be there. The two are the same. An entry earns a warning exactly if the text compiles
to the same level with a blank line in place of the one that defines it.

Without the line the legend is as before, less its entry, so the tiles can only differ where
the symbol stands and the classifier asks the legend. There they do differ, because the
symbol then means nothing, and nothing is not a custom tile.

## Main definitions

* `Inert`: What an entry looks like that earns a warning.
* `CompilesBlanked`: A text compiles to a level with a line of it blanked.
* `WarnsExactly`: The warnings of a text are right, and strictness goes by them.

## Theorems

* `level_eq_iff_inert`: An entry can be left out without a change exactly if it is inert.
* `compilesBlanked_iff_inert`: Its line can be blanked without a change exactly then.
* `warnings_exact`: The warnings of a text are right.
-/

namespace PuzzleLevel

namespace Warning

/-- The number of the line that defines the entry. -/
def line : Warning → Nat
  | builtin line _ => line
  | unused line _ => line

/-- The symbol of the entry. -/
def symbol : Warning → Char
  | builtin _ symbol => symbol
  | unused _ symbol => symbol

end Warning

/-- A symbol is inert if the legend has no say in it, or the map does not have it. -/
def Inert (classifier : Classifier) (rows : List (List Char)) (symbol : Char) : Prop :=
  classifier.isBuiltin symbol = true ∨ ∀ row ∈ rows, symbol ∉ row

section Earned

variable (classifier : Classifier) (rows : List (List Char))

/-- An entry earns a warning if its symbol is inert. The warning names the entry. -/
theorem ofEntry?_cases (entry : LegendEntry) :
    (Inert classifier rows entry.symbol ∧ ∃ warning,
      Warning.ofEntry? classifier rows entry = some warning ∧ warning.line = entry.line ∧
        warning.symbol = entry.symbol) ∨
      (¬ Inert classifier rows entry.symbol ∧ Warning.ofEntry? classifier rows entry = none) := by
  unfold Inert
  fun_cases Warning.ofEntry? classifier rows entry with
  | case1 hbuiltin => exact Or.inl ⟨Or.inl hbuiltin, _, rfl, rfl, rfl⟩
  | case2 hbuiltin hused =>
      refine Or.inr ⟨?_, rfl⟩
      rintro (h | hunused)
      · exact hbuiltin h
      · rcases List.any_eq_true.mp hused with ⟨row, hrow, hsymbol⟩
        exact hunused row hrow (List.contains_iff_mem.mp hsymbol)
  | case3 hbuiltin hunused =>
      refine Or.inl ⟨Or.inr fun row hrow hsymbol => hunused ?_, _, rfl, rfl, rfl⟩
      exact List.any_eq_true.mpr ⟨row, hrow, List.contains_iff_mem.mpr hsymbol⟩

/-- The warnings name the inert entries, in their order. -/
theorem filterMap_ofEntry? (inert : LegendEntry → Bool) (entries : List LegendEntry)
    (h : ∀ entry ∈ entries, inert entry = true ↔ Inert classifier rows entry.symbol) :
    (entries.filterMap (Warning.ofEntry? classifier rows)).map
        (fun warning => (warning.line, warning.symbol)) =
      (entries.filter inert).map fun entry => (entry.line, entry.symbol) := by
  induction entries with
  | nil => rfl
  | cons entry more ih =>
      have hentry := h entry (List.mem_cons_self ..)
      have hmore := ih fun other hother => h other (List.mem_cons_of_mem _ hother)
      rcases ofEntry?_cases classifier rows entry with ⟨hinert, warning, hsome, hline, hsymbol⟩ |
        ⟨hinert, hnone⟩
      · rw [List.filterMap_cons_some hsome, List.filter_cons_of_pos (hentry.mpr hinert),
          List.map_cons, List.map_cons, hmore, hline, hsymbol]
      · rw [List.filterMap_cons_none hnone,
          List.filter_cons_of_neg fun hpos => hinert (hentry.mp hpos), hmore]

end Earned

/-- A character with a fixed meaning has it under any legend. -/
theorem Classifier.tile_of_builtin {legend other : Legend} {marker c : Char}
    (h : (Classifier.mk legend marker).isBuiltin c = true) :
    (Classifier.mk other marker).tile c = (Classifier.mk legend marker).tile c := by
  unfold Classifier.isBuiltin builtinSymbols at h
  unfold Classifier.tile
  rw [Bool.or_eq_true, decide_eq_true_eq, List.contains_iff_mem] at h
  simp only [List.mem_cons, List.not_mem_nil, or_false] at h
  by_cases hfloor : c = '#'
  · rw [if_pos hfloor, if_pos hfloor]
  · rw [if_neg hfloor, if_neg hfloor]
    by_cases hmarker : c = marker
    · rw [if_pos hmarker, if_pos hmarker]
    · rw [if_neg hmarker, if_neg hmarker]
      rcases h with h | h | h | h
      · exact absurd h hmarker
      · exact absurd h hfloor
      · rw [if_pos h, if_pos h]
      · by_cases hfinish : c = 'F'
        · rw [if_pos hfinish, if_pos hfinish]
        · rw [if_neg hfinish, if_neg hfinish, if_pos h, if_pos h]

/-- Any other character means what the legend says, if it says anything. -/
theorem Classifier.tile_of_not_builtin {legend other : Legend} {marker c : Char}
    (h : ¬ (Classifier.mk legend marker).isBuiltin c = true) :
    (Classifier.mk other marker).tile c = ((other.tile? c).map Tile.custom).getD .empty := by
  unfold Classifier.isBuiltin builtinSymbols at h
  rw [Bool.or_eq_true, decide_eq_true_eq, List.contains_iff_mem] at h
  simp only [List.mem_cons, List.not_mem_nil, or_false, not_or] at h
  rcases h with ⟨hmarker, hfloor, hfinish, hrusty⟩
  unfold Classifier.tile
  rw [if_neg hfloor, if_neg hmarker, if_neg hfinish, if_neg hrusty]
  simp only
  cases other.tile? c with
  | none => rfl
  | some tile => rfl

section Without

variable {front back : List LegendEntry} {entry : LegendEntry}
  (hsymbols : ((front ++ entry :: back).map LegendEntry.symbol).Nodup)

include hsymbols

/-- A legend says of the symbol of an entry what the entry does, and without the entry it
    says nothing of it. -/
theorem Legend.tile?_own :
    Legend.tile? ⟨front ++ entry :: back⟩ entry.symbol = some entry.tile ∧
      Legend.tile? ⟨front ++ back⟩ entry.symbol = none := by
  have hmem : entry ∈ front ++ entry :: back := List.mem_append_right _ (List.mem_cons_self ..)
  refine ⟨(Legend.tile?_eq_some_iff hsymbols).mpr ⟨entry, hmem, rfl, rfl⟩, ?_⟩
  rw [List.map_append, List.map_cons] at hsymbols
  have hfront : entry.symbol ∉ front.map LegendEntry.symbol := fun h =>
    (List.nodup_append.mp hsymbols).2.2 _ h _ (List.mem_cons_self ..) rfl
  have hback : entry.symbol ∉ back.map LegendEntry.symbol :=
    (List.nodup_cons.mp (List.nodup_append.mp hsymbols).2.1).1
  unfold Legend.tile?
  rw [Legend.entry?_eq_none_iff.mpr]
  · rfl
  · rw [List.map_append, List.mem_append, not_or]
    exact ⟨hfront, hback⟩

omit hsymbols in
/-- Of other symbols it says the same. -/
theorem Legend.tile?_other {c : Char} (h : entry.symbol ≠ c) :
    Legend.tile? ⟨front ++ back⟩ c = Legend.tile? ⟨front ++ entry :: back⟩ c := by
  unfold Legend.tile? Legend.entry?
  rw [List.find?_append, List.find?_append,
    List.find?_cons_of_neg (by rw [decide_eq_true_eq]; exact h)]

/-- An entry can be left out without changing the level exactly if its symbol is inert. -/
theorem level_eq_iff_inert {marker : Char} {rows : List (List Char)} {level other : Level}
    (hlevel : assemble ⟨⟨front ++ entry :: back⟩, marker⟩ rows = .ok level)
    (hother : assemble ⟨⟨front ++ back⟩, marker⟩ rows = .ok other) :
    other = level ↔ Inert ⟨⟨front ++ entry :: back⟩, marker⟩ rows entry.symbol := by
  rcases assemble_eq_ok_iff.mp hlevel with ⟨hstart, htiles⟩
  rcases assemble_eq_ok_iff.mp hother with ⟨hstart', htiles'⟩
  constructor
  · rintro rfl
    by_contra hinert
    rw [Inert, not_or] at hinert
    rcases hinert with ⟨hbuiltin, hused⟩
    simp only [not_forall, not_not] at hused
    rcases hused with ⟨row, hrow, hsymbol⟩
    rcases exists_charAt? hrow hsymbol with ⟨p, hchar⟩
    -- Where the symbol stands, one tile is custom and the other is not.
    have hcustom := tile_of_tileGrid htiles p
    have hempty := tile_of_tileGrid htiles' p
    rw [hchar, Option.map_some, Option.getD_some,
      Classifier.tile_of_not_builtin hbuiltin, (Legend.tile?_own hsymbols).1] at hcustom
    rw [hchar, Option.map_some, Option.getD_some,
      Classifier.tile_of_not_builtin hbuiltin, (Legend.tile?_own hsymbols).2] at hempty
    rw [hempty] at hcustom
    exact absurd hcustom (by simp only [Option.map_some, Option.getD_some, Option.map_none,
      Option.getD_none, reduceCtorEq, not_false_eq_true])
  · intro hinert
    have htile : ∀ row ∈ rows, ∀ c ∈ row,
        (Classifier.mk ⟨front ++ back⟩ marker).tile c =
          (Classifier.mk ⟨front ++ entry :: back⟩ marker).tile c := by
      intro row hrow c hc
      by_cases hbuiltin : (Classifier.mk ⟨front ++ entry :: back⟩ marker).isBuiltin c = true
      · exact Classifier.tile_of_builtin hbuiltin
      · have hne : entry.symbol ≠ c := by
          rintro rfl
          rcases hinert with h | h
          · exact hbuiltin h
          · exact h row hrow hc
        rw [Classifier.tile_of_not_builtin hbuiltin, Classifier.tile_of_not_builtin hbuiltin,
          Legend.tile?_other hne]
    have hgrid : other.tiles = level.tiles := by
      rw [htiles, htiles', tileGrid, tileGrid, List.map_inj_left]
      intro row hrow
      rw [tileRow, tileRow, List.map_congr_left (htile row hrow)]
    rw [hstart, List.cons.injEq] at hstart'
    cases level
    cases other
    exact congrArg₂ Level.mk hgrid hstart'.1.symm

end Without

/-- A text compiles to a level with blanks in place of the line with a number. -/
def CompilesBlanked (blank text : List Char) (marker : Char) (number : Nat) (level : Level) :
    Prop :=
  (compile (Text.replaceLine blank (number - 1) text) ⟨marker, false⟩).map Compiled.level =
    .ok level

instance (blank text : List Char) (marker : Char) (number : Nat) (level : Level) :
    Decidable (CompilesBlanked blank text marker number level) :=
  inferInstanceAs (Decidable (_ = _))

/-- The warnings of a text are right: they name the entries that could be left out, in the
    order of their lines, and a text is refused for them and for nothing else. -/
structure WarnsExactly (blank text : List Char) (marker : Char) (compiled : Compiled) : Prop where
  /-- There is one warning for each entry whose line can be blanked, and no other. -/
  named : compiled.warnings.map (fun warning => (warning.line, warning.symbol)) =
    (compiled.legend.entries.filter fun entry =>
      CompilesBlanked blank text marker entry.line compiled.level).map
        fun entry => (entry.line, entry.symbol)
  /-- They are in the order of the lines. -/
  increasing : compiled.warnings.Pairwise fun a b => a.line < b.line
  /-- Without such an entry, strictness makes no difference. -/
  accepted : (∀ entry ∈ compiled.legend.entries,
      ¬ CompilesBlanked blank text marker entry.line compiled.level) →
    compile text ⟨marker, true⟩ = .ok compiled
  /-- With one, a strict compilation fails and gives the warnings. -/
  refused : (∃ entry ∈ compiled.legend.entries,
      CompilesBlanked blank text marker entry.line compiled.level) →
    compile text ⟨marker, true⟩ = .error (.strict compiled.warnings)

/-- What is compiled strictly is compiled otherwise first. -/
theorem compile_strict (text : List Char) (marker : Char) :
    compile text ⟨marker, true⟩ =
      match compile text ⟨marker, false⟩ with
      | .error error => .error error
      | .ok compiled =>
        if compiled.warnings = [] then .ok compiled else .error (.strict compiled.warnings) := by
  unfold compile Source.compile
  cases Legend.resolve (Source.ofText text).rows (Source.ofText text).legend with
  | error error => rfl
  | ok legend =>
      simp only
      cases assemble ⟨legend, marker⟩ (Source.ofText text).rows with
      | error error => rfl
      | ok level =>
          simp only [Bool.true_and, Bool.false_and, Bool.false_eq_true, if_false,
            Bool.not_eq_true', List.isEmpty_eq_false_iff, ite_not, ne_eq]

/-- Without strictness a legend and a level are all that is needed. -/
theorem Source.compile_of_resolve {rows : List (List Char)} {lines : List NumberedLine}
    {legend : Legend} {marker : Char} {level : Level}
    (hlegend : Legend.resolve rows lines = .ok legend)
    (hlevel : assemble ⟨legend, marker⟩ rows = .ok level) :
    Source.compile ⟨rows, lines⟩ ⟨marker, false⟩ =
      .ok ⟨level, legend, warnings ⟨legend, marker⟩ rows⟩ :=
  Source.compile_eq_ok_iff.mpr ⟨hlegend, hlevel, rfl, fun h => absurd h Bool.false_ne_true⟩

section Compiles

variable {blank text : List Char} (hblank : IsBlankText blank) (hfeed : '\n' ∉ blank)
  {marker : Char} {compiled : Compiled} (h : compile text ⟨marker, false⟩ = .ok compiled)

include hblank hfeed h

/-- Blanking the line of an entry takes the entry away and nothing else, so the text still
    compiles. -/
theorem compile_replaceLine {entry : LegendEntry} (hentry : entry ∈ compiled.legend.entries) :
    ∃ front back other, compiled.legend.entries = front ++ entry :: back ∧
      other.legend.entries = front ++ back ∧
      compile (Text.replaceLine blank (entry.line - 1) text) ⟨marker, false⟩ = .ok other ∧
      assemble ⟨other.legend, marker⟩ (Source.ofText text).rows = .ok other.level := by
  rcases Source.compile_eq_ok_iff.mp h with ⟨hlegend, hlevel, _, _⟩
  have hincreasing := Source.increasing_ofText text
  rcases Legend.exists_line_of_mem hincreasing hlegend hentry with ⟨line, hline, hgives⟩
  rcases Source.ofText_replaceLine hblank hfeed hline with
    ⟨before, gap, after, hlines, hgap, hsource⟩
  have hgapped := Source.increasing_ofText (Text.replaceLine blank (line.number - 1) text)
  rw [hlines] at hincreasing hlegend
  rw [hsource] at hgapped
  rcases Legend.resolve_without hincreasing hgapped
    (fun l hl => NumberedLine.symbol?_eq_none (hgap l hl)) hlegend hgives with
    ⟨front, back, hentries, hresolve⟩
  -- The start is found whatever the legend is.
  have hassemble : assemble ⟨⟨front ++ back⟩, marker⟩ (Source.ofText text).rows =
      .ok ⟨tileGrid ⟨⟨front ++ back⟩, marker⟩ (Source.ofText text).rows, compiled.level.start⟩ :=
    assemble_eq_ok_iff.mpr ⟨(assemble_eq_ok_iff.mp hlevel).1, rfl⟩
  have hcompile := Source.compile_of_resolve hresolve hassemble
  rw [← hsource, ← hgives.line_eq] at hcompile
  exact ⟨front, back, _, hentries, rfl, hcompile, hassemble⟩

/-- A line can be blanked without changing the level exactly if the symbol of its entry is
    inert. -/
theorem compilesBlanked_iff_inert {entry : LegendEntry}
    (hentry : entry ∈ compiled.legend.entries) :
    CompilesBlanked blank text marker entry.line compiled.level ↔
      Inert ⟨compiled.legend, marker⟩ (Source.ofText text).rows entry.symbol := by
  rcases compile_replaceLine hblank hfeed h hentry with
    ⟨front, back, other, hentries, hrest, hother, hassemble⟩
  rcases Source.compile_eq_ok_iff.mp h with ⟨hlegend, hlevel, _, _⟩
  have hsymbols := ((Legend.resolve_eq_ok_iff (Source.increasing_ofText text)).mp hlegend).2
  rcases compiled with ⟨level, ⟨entries⟩, found⟩
  rcases other with ⟨level', ⟨entries'⟩, found'⟩
  simp only at hentries hrest hlevel hassemble hsymbols ⊢
  subst hentries hrest
  rw [← level_eq_iff_inert hsymbols hlevel hassemble, CompilesBlanked, hother, Except.map,
    Except.ok.injEq]

/-- The warnings of a text that compiles are right. -/
theorem warnsExactly : WarnsExactly blank text marker compiled := by
  rcases Source.compile_eq_ok_iff.mp h with ⟨hlegend, _, hwarnings, _⟩
  have hincreasing := Source.increasing_ofText text
  have hnamed : compiled.warnings.map (fun warning => (warning.line, warning.symbol)) =
      (compiled.legend.entries.filter fun entry =>
        CompilesBlanked blank text marker entry.line compiled.level).map
          fun entry => (entry.line, entry.symbol) := by
    rw [hwarnings, warnings]
    refine filterMap_ofEntry? _ _ _ _ fun entry hentry => ?_
    rw [decide_eq_true_eq]
    exact compilesBlanked_iff_inert hblank hfeed h hentry
  have hstrict := compile_strict text marker
  rw [h] at hstrict
  simp only at hstrict
  refine ⟨hnamed, ?_, fun hnone => ?_, fun hsome => ?_⟩
  · have hlines := congrArg (List.map Prod.fst) hnamed
    rw [List.map_map, List.map_map] at hlines
    rw [← List.pairwise_map (f := Warning.line) (R := (· < ·))]
    refine Eq.subst hlines.symm ?_
    rw [List.pairwise_map]
    exact (Legend.increasing_of_resolve hincreasing hlegend).sublist List.filter_sublist
  · have hempty : compiled.warnings = [] := by
      rw [List.filter_eq_nil_iff.mpr fun entry hentry => by
        rw [decide_eq_true_eq]
        exact hnone entry hentry] at hnamed
      exact List.map_eq_nil_iff.mp hnamed
    rwa [if_pos hempty] at hstrict
  · have hfound : compiled.warnings ≠ [] := by
      rcases hsome with ⟨entry, hentry, hblanked⟩
      intro hempty
      rw [hempty, List.map_nil, eq_comm, List.map_eq_nil_iff, List.filter_eq_nil_iff] at hnamed
      exact hnamed entry hentry (decide_eq_true hblanked)
    rwa [if_neg hfound] at hstrict

end Compiles

/-- For every text and start marker, and whatever blanks are put in place of a line: if the
    text compiles its warnings are right, and if not it fails in the same way when it is
    compiled strictly. -/
theorem warnings_exact {blank : List Char} (hblank : IsBlankText blank) (hfeed : '\n' ∉ blank)
    (text : List Char) (marker : Char) :
    (∀ compiled, compile text ⟨marker, false⟩ = .ok compiled →
      WarnsExactly blank text marker compiled) ∧
    ∀ error, compile text ⟨marker, false⟩ = .error error →
      compile text ⟨marker, true⟩ = .error error := by
  refine ⟨fun compiled h => warnsExactly hblank hfeed h, fun error h => ?_⟩
  rw [compile_strict, h]

/-- A map that has the start marker and one custom tile. Of the three entries of its legend
    one is about the marker, one about the tile, and one about nothing in the map. -/
def idleText : List Char := "SA\n---\nS: Start\nA: Door\nB: Door\n".toList

def idleCompiled : Compiled where
  level := ⟨[[.floor, .custom ⟨"Door", none⟩]], ⟨0, 0⟩⟩
  legend := ⟨[⟨'S', ⟨"Start", none⟩, 3⟩, ⟨'A', ⟨"Door", none⟩, 4⟩, ⟨'B', ⟨"Door", none⟩, 5⟩]⟩
  warnings := [.builtin 3 'S', .unused 5 'B']

/-- Its warnings are right when lines are blanked by a tab and a space. -/
theorem idle_warnings_exact :
    IsBlankText ['\t', ' '] ∧ '\n' ∉ ['\t', ' '] ∧
      compile idleText ⟨'S', false⟩ = .ok idleCompiled ∧
      WarnsExactly ['\t', ' '] idleText 'S' idleCompiled :=
  have hblank : IsBlankText ['\t', ' '] := List.all_eq_true.mp (by decide +kernel)
  ⟨hblank, by decide, by decide +kernel,
    (warnings_exact hblank (by decide) idleText 'S').1 idleCompiled (by decide +kernel)⟩

end PuzzleLevel
