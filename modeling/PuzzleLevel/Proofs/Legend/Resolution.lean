import Mathlib.Data.List.TakeWhile
import PuzzleLevel.Legend.Basic
import PuzzleLevel.Proofs.Legend.Entry
import PuzzleLevel.Proofs.Legend.Grammar

/-!
# Where a Legend Entry Comes From

A legend is made line by line, and a line either says nothing or adds one entry. The
symbol of a line can be told before it is read: it is the first visible character. So
the lines themselves show which of them define a symbol, and the claim is that at most
one does: a symbol without an entry begins no line, and a symbol with one begins a
single line, which was read and bound to give this entry.

`Defines` says this of the lines that were taken so far. It holds of no lines and of the
empty legend, a line keeps it, and so it holds of a whole legend.

## Main definitions

* `NumberedLine.symbol?`: The first visible character of a line.
* `Legend.linesOf`: The lines that begin with a symbol.
* `Legend.Defines`: Every entry comes from the only line of its symbol.

## Theorems

* `symbol?_of_read`: A line that is read begins with its symbol.
* `addLine_of_blank`, `addLine_of_unread`, `addLine_of_read`: What one line does.
* `addLine_eq_ok_iff`: What becomes of a legend with one more line.
* `Defines.addLine`, `Defines.addLines`: One line keeps `Defines`, and so do all.
* `defines_of_resolve`: Every entry of a legend comes from the only line of its symbol.
-/

namespace PuzzleLevel

/-- The first visible character of a line, which is the symbol that it defines if it
    defines any. -/
def NumberedLine.symbol? (line : NumberedLine) : Option Char :=
  (Text.trim line.text).head?

/-- A line of blanks begins with no symbol. -/
theorem NumberedLine.symbol?_eq_none {line : NumberedLine} (h : IsBlankText line.text) :
    line.symbol? = none := by
  have hstart : Text.trimStart line.text = [] := by
    unfold Text.trimStart Text.skip
    rw [List.dropWhile_eq_nil_iff]
    exact h
  rw [NumberedLine.symbol?, Text.trim, hstart]
  rfl

/-- A line that is read begins with its symbol. -/
theorem symbol?_of_read {line : NumberedLine} {parsed : LegendLine}
    (h : LegendLine.read line = .ok parsed) : line.symbol? = some parsed.symbol := by
  rcases LegendLine.read_eq_ok_iff.mp h with ⟨_, hspelling⟩
  unfold NumberedLine.symbol?
  generalize Text.trim line.text = trimmed at hspelling
  cases hspelling with
  | intro symbol before inside s behind e => rfl

theorem bind_eq_ok_iff {rows : List (List Char)} {line : LegendLine} {entry : LegendEntry} :
    line.bind rows = .ok entry ↔
      line.expr.tile rows line.symbol = .ok entry.tile ∧ entry.symbol = line.symbol ∧
        entry.line = line.number := by
  unfold LegendLine.bind
  rcases entry with ⟨symbol, tile, number⟩
  cases line.expr.tile rows line.symbol with
  | error fault => simp only [reduceCtorEq, false_and]
  | ok found =>
      simp only [Except.ok.injEq, LegendEntry.mk.injEq]
      constructor
      · rintro ⟨rfl, rfl, rfl⟩
        exact ⟨rfl, rfl, rfl⟩
      · rintro ⟨rfl, rfl, rfl⟩
        exact ⟨rfl, rfl, rfl⟩

namespace Legend

theorem find?_insertByLine (p : LegendEntry → Bool) (entry : LegendEntry)
    (entries : List LegendEntry) (hunique : p entry = true → entries.find? p = none) :
    (insertByLine entry entries).find? p = if p entry then some entry else entries.find? p := by
  induction entries with
  | nil => rw [insertByLine, List.find?_cons]; cases p entry <;> rfl
  | cons first more ih =>
      have hmore : p entry = true → more.find? p = none := by
        intro hentry
        have hnone := hunique hentry
        rw [List.find?_eq_none] at hnone ⊢
        exact fun other hother => hnone other (List.mem_cons_of_mem _ hother)
      rw [insertByLine]
      by_cases hline : entry.line < first.line
      · rw [if_pos hline, List.find?_cons]
        cases p entry <;> rfl
      · rw [if_neg hline, List.find?_cons, List.find?_cons, ih hmore]
        cases hfirst : p first with
        | false => rfl
        | true =>
            -- Two entries of one symbol would be a duplicate.
            have hentry : p entry = false := by
              rw [Bool.eq_false_iff]
              intro hentry
              have hnone := List.find?_eq_none.mp (hunique hentry) first (List.mem_cons_self ..)
              exact hnone hfirst
            rw [hentry]
            rfl

/-- A new symbol gets its entry, and the other symbols keep theirs. -/
theorem entry?_insert {legend : Legend} {entry : LegendEntry}
    (hnew : legend.entry? entry.symbol = none) (symbol : Char) :
    entry? (legend.insert entry) symbol =
      if entry.symbol = symbol then some entry else legend.entry? symbol := by
  unfold entry? insert
  rw [find?_insertByLine _ entry legend.entries (fun h => by
    rw [decide_eq_true_eq] at h
    rw [← h]
    exact hnew)]
  simp only [decide_eq_true_eq]

section Step

variable {rows : List (List Char)} {legend : Legend} {line : NumberedLine}

theorem addLine_of_blank (h : line.symbol? = none) : addLine rows legend line = .ok legend := by
  rw [addLine, if_pos (List.isEmpty_iff.mpr (List.head?_eq_none_iff.mp h))]

theorem not_isEmpty_of_symbol? (h : line.symbol? ≠ none) :
    ¬ (Text.trim line.text).isEmpty = true := by
  rw [List.isEmpty_iff, ← List.head?_eq_none_iff]
  exact h

/-- A visible line that cannot be read is at fault. -/
theorem addLine_of_unread {fault : LineFault} (hvisible : line.symbol? ≠ none)
    (h : LegendLine.read line = .error fault) :
    addLine rows legend line = .error (.line line.number fault) := by
  rw [addLine, if_neg (not_isEmpty_of_symbol? hvisible), readLine, h]

/-- A line that is read is refused if its symbol has an entry, and bound if not. -/
theorem addLine_of_read {parsed : LegendLine} (h : LegendLine.read line = .ok parsed) :
    addLine rows legend line =
      match legend.entry? parsed.symbol with
      | some previous => .error (.line line.number (.duplicate parsed.symbol previous.line))
      | none =>
        match parsed.bind rows with
        | .error fault => .error (errorAt line.number fault)
        | .ok entry => .ok (legend.insert entry) := by
  have hvisible : line.symbol? ≠ none := by
    rw [symbol?_of_read h]
    exact Option.some_ne_none _
  rewrite [addLine, if_neg (not_isEmpty_of_symbol? hvisible), readLine_eq_ok_iff.mpr h]
  rfl

end Step

/-- What becomes of a legend with one more line: it stays as it is if the line is blank,
    and otherwise the line was read, has a new symbol and was bound. -/
theorem addLine_eq_ok_iff {rows : List (List Char)} {legend next : Legend}
    {line : NumberedLine} :
    addLine rows legend line = .ok next ↔
      (line.symbol? = none ∧ next = legend) ∨
        ∃ parsed entry, LegendLine.read line = .ok parsed ∧
          legend.entry? parsed.symbol = none ∧ parsed.bind rows = .ok entry ∧
          next = legend.insert entry := by
  constructor
  · fun_cases Legend.addLine rows legend line with
    | case1 hblank =>
        intro h
        rw [Except.ok.injEq] at h
        refine Or.inl ⟨?_, h.symm⟩
        rw [NumberedLine.symbol?, List.isEmpty_iff.mp hblank, List.head?_nil]
    | case2 hvisible error hread => exact nofun
    | case3 hvisible parsed hread previous hprevious => exact nofun
    | case4 hvisible parsed hread hnew fault hbind => exact nofun
    | case5 hvisible parsed hread hnew entry hbind =>
        intro h
        rw [Except.ok.injEq] at h
        exact Or.inr ⟨parsed, entry, readLine_eq_ok_iff.mp hread, hnew, hbind, h.symm⟩
  · rintro (⟨hblank, rfl⟩ | ⟨parsed, entry, hread, hnew, hbind, rfl⟩)
    · exact addLine_of_blank hblank
    · rw [addLine_of_read hread]
      simp only [hnew, hbind]

/-- More lines are added one after the other. -/
theorem addLines_cons_eq_ok_iff {rows : List (List Char)} {legend next : Legend}
    {line : NumberedLine} {more : List NumberedLine} :
    addLines rows legend (line :: more) = .ok next ↔
      ∃ step, addLine rows legend line = .ok step ∧ addLines rows step more = .ok next := by
  rw [addLines]
  cases addLine rows legend line with
  | error error => simp only [reduceCtorEq, false_and, exists_false]
  | ok step => simp only [Except.ok.injEq, exists_eq_left']

/-- The lines that begin with a symbol. -/
def linesOf (lines : List NumberedLine) (symbol : Char) : List NumberedLine :=
  lines.filter fun line => line.symbol? = some symbol

theorem linesOf_append_singleton (lines : List NumberedLine) (line : NumberedLine)
    (symbol : Char) :
    linesOf (lines ++ [line]) symbol =
      linesOf lines symbol ++ if line.symbol? = some symbol then [line] else [] := by
  unfold linesOf
  rw [List.filter_append, List.filter_singleton]
  by_cases h : line.symbol? = some symbol
  · rw [if_pos h, decide_eq_true h]
    rfl
  · rw [if_neg h, decide_eq_false h]
    rfl

/-- Every entry of a legend comes from the only line of its symbol. -/
structure Defines (rows : List (List Char)) (lines : List NumberedLine) (legend : Legend) :
    Prop where
  /-- A symbol without an entry begins no line. -/
  undefined : ∀ symbol, legend.entry? symbol = none → linesOf lines symbol = []
  /-- A symbol with an entry begins one line, which says what the entry is. -/
  defined : ∀ symbol entry, legend.entry? symbol = some entry →
    ∃ line parsed, linesOf lines symbol = [line] ∧ LegendLine.read line = .ok parsed ∧
      parsed.bind rows = .ok entry

theorem defines_empty (rows : List (List Char)) : Defines rows [] empty where
  undefined := fun _ _ => rfl
  defined := nofun

/-- One more line keeps that every entry comes from the only line of its symbol. -/
theorem Defines.addLine {rows : List (List Char)} {lines : List NumberedLine}
    {legend next : Legend} {line : NumberedLine} (h : Defines rows lines legend)
    (hadd : Legend.addLine rows legend line = .ok next) :
    Defines rows (lines ++ [line]) next := by
  rcases addLine_eq_ok_iff.mp hadd with ⟨hblank, rfl⟩ | ⟨parsed, entry, hread, hnew, hbind, rfl⟩
  · -- A blank line begins with no symbol.
    have hsame : ∀ symbol, linesOf (lines ++ [line]) symbol = linesOf lines symbol := by
      intro symbol
      rw [linesOf_append_singleton, hblank]
      exact List.append_nil _
    refine ⟨fun symbol hnone => ?_, fun symbol entry hsome => ?_⟩
    · rw [hsame, h.undefined symbol hnone]
    · rw [hsame]
      exact h.defined symbol entry hsome
  · -- Any other line adds itself to the lines of its own symbol, and to no others.
    have hsymbol : entry.symbol = parsed.symbol := (bind_eq_ok_iff.mp hbind).2.1
    have hline : line.symbol? = some entry.symbol := by rw [hsymbol, symbol?_of_read hread]
    rw [← hsymbol] at hnew
    have hother : ∀ symbol, entry.symbol ≠ symbol →
        linesOf (lines ++ [line]) symbol = linesOf lines symbol := by
      intro symbol hne
      rw [linesOf_append_singleton, hline, if_neg (by rwa [Option.some.injEq]), List.append_nil]
    refine ⟨fun symbol hnone => ?_, fun symbol found hsome => ?_⟩
    · rw [entry?_insert hnew] at hnone
      by_cases hs : entry.symbol = symbol
      · rw [if_pos hs] at hnone
        exact absurd hnone (by simp only [reduceCtorEq, not_false_eq_true])
      · rw [if_neg hs] at hnone
        rw [hother symbol hs, h.undefined symbol hnone]
    · rw [entry?_insert hnew] at hsome
      by_cases hs : entry.symbol = symbol
      · -- The symbol had no entry, so it had no line either, and this is its only one.
        rw [if_pos hs, Option.some.injEq] at hsome
        subst hs
        refine ⟨line, parsed, ?_, hread, hsome ▸ hbind⟩
        rw [linesOf_append_singleton, h.undefined _ hnew, hline, if_pos rfl, List.nil_append]
      · rw [if_neg hs] at hsome
        rw [hother symbol hs]
        exact h.defined symbol found hsome

/-- So do all lines. -/
theorem Defines.addLines {rows : List (List Char)} {before lines : List NumberedLine}
    {legend next : Legend} (h : Defines rows before legend)
    (hadd : Legend.addLines rows legend lines = .ok next) :
    Defines rows (before ++ lines) next := by
  induction lines generalizing before legend with
  | nil =>
      rw [Legend.addLines, Except.ok.injEq] at hadd
      rw [List.append_nil, ← hadd]
      exact h
  | cons line more ih =>
      rcases addLines_cons_eq_ok_iff.mp hadd with ⟨step, hline, hrest⟩
      have hmore := ih (h.addLine hline) hrest
      rwa [List.append_assoc, List.singleton_append] at hmore

/-- Every entry of a legend comes from the only line of its symbol. -/
theorem defines_of_resolve {rows : List (List Char)} {lines : List NumberedLine}
    {legend : Legend} (h : resolve rows lines = .ok legend) : Defines rows lines legend :=
  (defines_empty rows).addLines h

end Legend

end PuzzleLevel
