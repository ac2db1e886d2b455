import PuzzleLevel.Proofs.Legend.Faults
import PuzzleLevel.Proofs.Warnings

/-!
# The Order of Legend Lines

Legend lines can be written in any order. They are numbered by their places, so with the
order the numbers change as well, and with the numbers the entries, the warnings and the
errors that show them. Nothing else does.

It is not seen from the loop that makes a legend. Whether a line is at fault depends on what
came before it, and the error that is reported may well be another one for another order.
But whether any line is at fault is a question about all of them together: each must give an
entry, and no two may begin with one symbol. The entries are then those of the lines one by
one. With zero for their numbers they depend on the texts alone, so they are reordered as
the lines are, and what is asked of them by their symbols does not change.

## Main definitions

* `LegendEntry.unnumbered`, `Warning.unnumbered`: An entry or a warning without its number.
* `Legend.entryOf?`: What entry a text gives.
* `Compiled.SameButOrder`: Levels that differ in the order of their legend lines only.
* `SameOutcome`: Compilations that both fail, or give such levels.

## Theorems

* `entries_unnumbered`: The entries of a legend are those of its texts.
* `Sound.perm`: Sound lines are sound in any order.
* `entries_perm`: The entries of a legend are reordered as its lines are.
* `tile?_of_perm`: A legend says the same in any order.
* `warnings_perm`: The warnings are reordered as the entries are.
* `compile_of_perm`: A level that compiles does so with its legend in any order.
* `compile_reordered`: Compiling does not depend on the order of legend lines.
-/

namespace PuzzleLevel

/-- The entry with zero for the number of its line. -/
def LegendEntry.unnumbered (entry : LegendEntry) : LegendEntry :=
  { entry with line := 0 }

/-- The warning with zero for the number of its line. -/
def Warning.unnumbered : Warning → Warning
  | builtin _ symbol => builtin 0 symbol
  | unused _ symbol => unused 0 symbol

/-- An entry without its number earns its warning without the number. -/
theorem Warning.ofEntry?_unnumbered (classifier : Classifier) (rows : List (List Char))
    (entry : LegendEntry) :
    Warning.ofEntry? classifier rows entry.unnumbered =
      (Warning.ofEntry? classifier rows entry).map Warning.unnumbered := by
  unfold Warning.ofEntry? LegendEntry.unnumbered
  simp only
  by_cases hbuiltin : classifier.isBuiltin entry.symbol = true
  · rw [if_pos hbuiltin, if_pos hbuiltin]
    rfl
  · rw [if_neg hbuiltin, if_neg hbuiltin]
    by_cases hused : (rows.any fun row => row.contains entry.symbol) = true
    · rw [if_pos hused, if_pos hused]
      rfl
    · rw [if_neg hused, if_neg hused]
      rfl

namespace Legend

/-- The entry that a text gives as a line with the number zero, if it gives one. -/
def entryOf? (rows : List (List Char)) (text : List Char) : Option LegendEntry :=
  match LegendLine.read ⟨0, text⟩ with
  | .error _ => none
  | .ok parsed => (parsed.bind rows).toOption

/-- Lines with one text give entries that differ in their numbers only. -/
theorem Gives.renumbered {rows : List (List Char)} {line other : NumberedLine}
    {entry : LegendEntry} (h : Gives rows line entry) (htext : other.text = line.text) :
    Gives rows other { entry with line := other.number } := by
  rcases h with ⟨⟨symbol, expr, number⟩, hread, hbind⟩
  rcases LegendLine.read_eq_ok_iff.mp hread with ⟨_, hspelling⟩
  rcases bind_eq_ok_iff.mp hbind with ⟨htile, hsymbol, _⟩
  refine ⟨⟨symbol, expr, other.number⟩, LegendLine.read_eq_ok_iff.mpr ⟨rfl, ?_⟩,
    bind_eq_ok_iff.mpr ⟨htile, hsymbol, rfl⟩⟩
  rw [htext]
  exact hspelling

theorem entryOf?_of_gives {rows : List (List Char)} {line : NumberedLine} {entry : LegendEntry}
    (h : Gives rows line entry) : entryOf? rows line.text = some entry.unnumbered := by
  have hzero : Gives rows ⟨0, line.text⟩ entry.unnumbered := h.renumbered rfl
  rcases hzero with ⟨parsed, hread, hbind⟩
  rw [entryOf?, hread]
  simp only [hbind]
  rfl

/-- A blank line gives no entry. -/
theorem entryOf?_of_blank {rows : List (List Char)} {line : NumberedLine}
    (h : line.symbol? = none) : entryOf? rows line.text = none := by
  unfold entryOf?
  cases hread : LegendLine.read ⟨0, line.text⟩ with
  | error fault => rfl
  | ok parsed =>
      have hsymbol := symbol?_of_read hread
      rw [show NumberedLine.symbol? ⟨0, line.text⟩ = line.symbol? from rfl, h] at hsymbol
      exact absurd hsymbol (by simp only [reduceCtorEq, not_false_eq_true])

/-- The entries of a legend, without their numbers, are those that its texts give. -/
theorem entries_unnumbered {rows : List (List Char)} {lines : List NumberedLine}
    {entries : List LegendEntry} (h : List.Forall₂ (Gives rows) (visible lines) entries) :
    entries.map LegendEntry.unnumbered =
      (lines.map NumberedLine.text).filterMap (entryOf? rows) := by
  induction lines generalizing entries with
  | nil =>
      rw [List.forall₂_nil_left_iff.mp h]
      rfl
  | cons line more ih =>
      cases hsymbol : line.symbol? with
      | none =>
          rw [visible_cons_of_none more hsymbol] at h
          rw [List.map_cons, List.filterMap_cons_none (entryOf?_of_blank hsymbol), ih h]
      | some symbol =>
          rw [visible_cons_of_some more hsymbol] at h
          rcases List.forall₂_cons_left_iff.mp h with ⟨entry, rest, hentry, hrest, rfl⟩
          rw [List.map_cons, List.map_cons,
            List.filterMap_cons_some (entryOf?_of_gives hentry), ih hrest]

/-- The symbols that lines begin with are told by their texts. -/
theorem symbols_visible (lines : List NumberedLine) :
    (visible lines).map NumberedLine.symbol? =
      ((lines.map NumberedLine.text).map fun text => (Text.trim text).head?).filter
        Option.isSome := by
  rw [List.map_map, List.filter_map]
  rfl

section Reordered

variable {rows : List (List Char)} {lines others : List NumberedLine}
  (hperm : (lines.map NumberedLine.text).Perm (others.map NumberedLine.text))

include hperm

/-- Sound lines are sound in any order. -/
theorem Sound.perm (h : Sound rows lines) : Sound rows others := by
  refine ⟨fun other hother => ?_, ?_⟩
  · rw [visible, List.mem_filter] at hother
    rcases hother with ⟨hmem, hvisible⟩
    -- A line with the same text is one of the first lines.
    rcases List.mem_map.mp (hperm.mem_iff.mpr (List.mem_map_of_mem hmem)) with
      ⟨line, hline, htext⟩
    have hsame : line.symbol? = other.symbol? := by
      unfold NumberedLine.symbol?
      rw [htext]
    rw [← hsame] at hvisible
    rcases h.gives line (List.mem_filter.mpr ⟨hline, hvisible⟩) with ⟨entry, hentry⟩
    exact ⟨_, hentry.renumbered htext.symm⟩
  · -- Whether symbols are distinct does not depend on their order.
    have hdistinct := h.distinct
    rw [symbols_visible] at hdistinct ⊢
    exact ((hperm.map _).filter _).nodup_iff.mp hdistinct

variable {legend other : Legend} (hlines : lines.Pairwise fun a b => a.number < b.number)
  (hothers : others.Pairwise fun a b => a.number < b.number)
  (hlegend : resolve rows lines = .ok legend) (hother : resolve rows others = .ok other)

include hlines hothers hlegend hother

/-- The entries are reordered as the lines are. -/
theorem entries_perm : (legend.entries.map LegendEntry.unnumbered).Perm
    (other.entries.map LegendEntry.unnumbered) := by
  rw [entries_unnumbered ((resolve_eq_ok_iff hlines).mp hlegend).1,
    entries_unnumbered ((resolve_eq_ok_iff hothers).mp hother).1]
  exact hperm.filterMap _

/-- A legend says the same of every symbol in any order. -/
theorem tile?_of_perm (c : Char) : other.tile? c = legend.tile? c := by
  have hentries := entries_perm hperm hlines hothers hlegend hother
  have hasked : ∀ {legend : Legend} {lines : List NumberedLine} (tile : CustomTile),
      Lists rows lines legend → (legend.tile? c = some tile ↔
        ⟨c, tile, 0⟩ ∈ legend.entries.map LegendEntry.unnumbered) := by
    intro legend lines tile hlists
    rw [hlists.tile, List.mem_map]
    simp only [LegendEntry.unnumbered, LegendEntry.mk.injEq, and_true]
  refine Option.ext fun tile => ?_
  rw [hasked tile (lists_of_resolve hlines hlegend), hasked tile (lists_of_resolve hothers hother)]
  exact hentries.mem_iff.symm

/-- The warnings are reordered as the entries are. -/
theorem warnings_perm (marker : Char) :
    ((warnings ⟨legend, marker⟩ rows).map Warning.unnumbered).Perm
      ((warnings ⟨other, marker⟩ rows).map Warning.unnumbered) := by
  have hentries := entries_perm hperm hlines hothers hlegend hother
  have hearned : ∀ legend : Legend,
      (warnings ⟨legend, marker⟩ rows).map Warning.unnumbered =
        (legend.entries.map LegendEntry.unnumbered).filterMap
          (Warning.ofEntry? ⟨empty, marker⟩ rows) := by
    intro legend
    rw [warnings, List.map_filterMap, List.filterMap_map]
    -- Which warning an entry earns is not asked of the legend.
    exact List.filterMap_congr fun entry _ =>
      (Warning.ofEntry?_unnumbered ⟨legend, marker⟩ rows entry).symm
  rw [hearned legend, hearned other]
  exact hentries.filterMap _

end Reordered

end Legend

/-- Two compiled levels differ at most in the order of their legend lines. -/
structure Compiled.SameButOrder (compiled other : Compiled) : Prop where
  level : other.level = compiled.level
  tile : ∀ symbol, other.legend.tile? symbol = compiled.legend.tile? symbol
  /-- The warnings are the same, up to their order and the numbers of their lines. -/
  warnings : (compiled.warnings.map Warning.unnumbered).Perm
    (other.warnings.map Warning.unnumbered)

/-- Two compilations come to the same, the order of legend lines apart. -/
inductive SameOutcome : Except CompileError Compiled → Except CompileError Compiled → Prop
  /-- Both fail. They may do so for different lines. -/
  | failed (error other : CompileError) : SameOutcome (.error error) (.error other)
  | compiled (compiled other : Compiled) (h : compiled.SameButOrder other) :
      SameOutcome (.ok compiled) (.ok other)

/-- A level that compiles does so with its legend lines in any order. -/
theorem compile_of_perm {rows : List (List Char)} {lines others : List NumberedLine}
    {options : CompileOptions} {compiled : Compiled}
    (hperm : (lines.map NumberedLine.text).Perm (others.map NumberedLine.text))
    (hlines : lines.Pairwise fun a b => a.number < b.number)
    (hothers : others.Pairwise fun a b => a.number < b.number)
    (h : Source.compile ⟨rows, lines⟩ options = .ok compiled) :
    ∃ other, Source.compile ⟨rows, others⟩ options = .ok other ∧ compiled.SameButOrder other := by
  rcases Source.compile_eq_ok_iff.mp h with ⟨hlegend, hlevel, hwarnings, hstrict⟩
  have hsound := (Legend.exists_resolve_iff hlines).mp ⟨_, hlegend⟩
  rcases (Legend.exists_resolve_iff hothers).mpr (hsound.perm hperm) with ⟨legend, hother⟩
  have htile := Legend.tile?_of_perm hperm hlines hothers hlegend hother
  have hfound := Legend.warnings_perm hperm hlines hothers hlegend hother options.startMarker
  rw [← hwarnings] at hfound
  refine ⟨⟨compiled.level, legend, warnings ⟨legend, options.startMarker⟩ rows⟩,
    Source.compile_eq_ok_iff.mpr ⟨hother, ?_, rfl, fun hoption => ?_⟩, ⟨rfl, htile, hfound⟩⟩
  · rw [assemble_congr htile]
    exact hlevel
  · -- Without warnings in one order there are none in the other.
    rw [hstrict hoption, List.map_nil] at hfound
    exact List.map_eq_nil_iff.mp hfound.nil_eq.symm

/-- Compiling comes to the same with the legend lines in any order. -/
theorem sameOutcome_of_perm {rows : List (List Char)} {lines others : List NumberedLine}
    (hperm : (lines.map NumberedLine.text).Perm (others.map NumberedLine.text))
    (hlines : lines.Pairwise fun a b => a.number < b.number)
    (hothers : others.Pairwise fun a b => a.number < b.number) (options : CompileOptions) :
    SameOutcome (Source.compile ⟨rows, lines⟩ options) (Source.compile ⟨rows, others⟩ options) := by
  cases h : Source.compile ⟨rows, lines⟩ options with
  | ok compiled =>
      rcases compile_of_perm hperm hlines hothers h with ⟨other, hother, hsame⟩
      rw [hother]
      exact .compiled compiled other hsame
  | error error =>
      cases hother : Source.compile ⟨rows, others⟩ options with
      | error otherError => exact .failed error otherError
      | ok other =>
          -- The order could be taken back, so the first compilation would not fail either.
          rcases compile_of_perm hperm.symm hothers hlines hother with ⟨compiled, hcompiled, _⟩
          rw [h] at hcompiled
          exact absurd hcompiled (by simp only [reduceCtorEq, not_false_eq_true])

/-- For every map and all legend lines, in whatever order they are written and numbered by
    their places, and for all options: compiling fails in each order or in none. If it does
    not, the level is the same, every symbol has the same tile, and so are the warnings, up
    to their order and the numbers in them. Texts that are read as such sections compile
    accordingly. -/
theorem compile_reordered (rows : List (List Char)) {lines others : List (List Char)}
    (hperm : lines.Perm others) (first : Nat) (options : CompileOptions) :
    SameOutcome (Source.compile ⟨rows, Source.numberFrom first lines⟩ options)
        (Source.compile ⟨rows, Source.numberFrom first others⟩ options) ∧
      ∀ text other, Source.ofText text = ⟨rows, Source.numberFrom first lines⟩ →
        Source.ofText other = ⟨rows, Source.numberFrom first others⟩ →
        SameOutcome (compile text options) (compile other options) := by
  have htexts : ((Source.numberFrom first lines).map NumberedLine.text).Perm
      ((Source.numberFrom first others).map NumberedLine.text) := by
    rw [Source.numberFrom_text, Source.numberFrom_text]
    exact hperm
  have hsame := @sameOutcome_of_perm rows _ _ htexts (Source.increasing_numberFrom first lines)
    (Source.increasing_numberFrom first others) options
  refine ⟨hsame, fun text other htext hother => ?_⟩
  rw [compile, compile, htext, hother]
  exact hsame

/-- A legend with a blank line in it, an entry that is used and two that earn warnings. -/
def sortedText : List Char := "SA\n---\nA: Door(@S)\n\nS: Start\nB: Ice\n".toList

/-- The same legend from behind. -/
def reversedText : List Char := "SA\n---\nB: Ice\nS: Start\n\nA: Door(@S)\n".toList

def sortedLines : List (List Char) :=
  ["A: Door(@S)".toList, [], "S: Start".toList, "B: Ice".toList]

/-- It has the same warnings, with other numbers and in another order. -/
theorem reversed_compile_reordered :
    sortedLines.Perm sortedLines.reverse ∧
      Source.ofText sortedText = ⟨["SA".toList], Source.numberFrom 3 sortedLines⟩ ∧
      Source.ofText reversedText = ⟨["SA".toList], Source.numberFrom 3 sortedLines.reverse⟩ ∧
      SameOutcome (compile sortedText {}) (compile reversedText {}) ∧
      (compile sortedText {}).map Compiled.warnings = .ok [.builtin 5 'S', .unused 6 'B'] ∧
      (compile reversedText {}).map Compiled.warnings = .ok [.unused 3 'B', .builtin 4 'S'] := by
  have hperm := sortedLines.reverse_perm.symm
  have hsorted : Source.ofText sortedText = ⟨["SA".toList], Source.numberFrom 3 sortedLines⟩ := by
    decide +kernel
  have hreversed : Source.ofText reversedText =
      ⟨["SA".toList], Source.numberFrom 3 sortedLines.reverse⟩ := by
    decide +kernel
  exact ⟨hperm, hsorted, hreversed,
    (compile_reordered _ hperm 3 {}).2 _ _ hsorted hreversed, by decide +kernel, by decide +kernel⟩

end PuzzleLevel
