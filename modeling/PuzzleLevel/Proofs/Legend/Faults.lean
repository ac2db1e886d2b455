import PuzzleLevel.Proofs.Compile
import PuzzleLevel.Proofs.Legend.Entries
import PuzzleLevel.Proofs.Source

/-!
# The First Fault of a Legend

A legend is made line by line, and the first line with a fault ends it. Three things can be
wrong with a line, and they are looked for in this order: it cannot be read, its symbol was
defined before, it cannot be bound to the map. Which of them is reported is told here by the
lines alone. What stands in front of the line at fault is a legend in its own right, and in
it the symbol was defined at most once; that is why "the line of the first definition" is
one line, and why the entries kept so far answer for it.

So the lines make a legend exactly if none is at fault, and there is one error for each list
of lines that does not. For a file the number in it is that of the line itself, counted in
the text and not in the list that the text was cut into.

## Main definitions

* `Legend.Sound`: Lines of which none is at fault.
* `Legend.FaultBehind`: What is wrong with a line behind others.
* `Legend.FirstFault`: What is wrong with the first line at fault.
* `Legend.Lists`: A legend has one entry for each line.

## Theorems

* `exists_resolve_iff`: Lines make a legend exactly if they are sound.
* `lists_of_resolve`: The legend then has one entry for each of them.
* `addLine_eq_error_iff`: What is wrong with one more line.
* `addLines_append`: Lines behind others are added to what the others make.
* `addLines_eq_error_iff`: The first line that cannot be added ends the legend.
* `resolve_eq_error_iff`: Otherwise the first fault is reported.
* `resolve_exact`: All of this, for lines and for the legend of a text.
-/

namespace PuzzleLevel

namespace Legend

/-- Each visible line can be read and bound to the map, and no two begin with one symbol. -/
structure Sound (rows : List (List Char)) (lines : List NumberedLine) : Prop where
  gives : ∀ line ∈ visible lines, ∃ entry, Gives rows line entry
  distinct : ((visible lines).map NumberedLine.symbol?).Nodup

/-- If each of some lines gives an entry, there is a list of them. -/
theorem exists_entries {rows : List (List Char)} {lines : List NumberedLine}
    (h : ∀ line ∈ lines, ∃ entry, Gives rows line entry) :
    ∃ entries, List.Forall₂ (Gives rows) lines entries := by
  induction lines with
  | nil => exact ⟨[], .nil⟩
  | cons line more ih =>
      rw [List.forall_mem_cons] at h
      rcases h.1 with ⟨entry, hentry⟩
      rcases ih h.2 with ⟨entries, hentries⟩
      exact ⟨entry :: entries, .cons hentry hentries⟩

/-- Lines that are numbered upwards make a legend exactly if they are sound. -/
theorem exists_resolve_iff {rows : List (List Char)} {lines : List NumberedLine}
    (hincreasing : lines.Pairwise fun a b => a.number < b.number) :
    (∃ legend, resolve rows lines = .ok legend) ↔ Sound rows lines := by
  constructor
  · rintro ⟨legend, h⟩
    rcases (resolve_eq_ok_iff hincreasing).mp h with ⟨hgives, hsymbols⟩
    refine ⟨fun line hline => ?_, ?_⟩
    · rcases exists_of_mem_left hgives hline with ⟨entry, _, hentry⟩
      exact ⟨entry, hentry⟩
    · rw [symbols_eq hgives]
      exact hsymbols.map fun _ _ => Option.some.inj
  · rintro ⟨hgives, hdistinct⟩
    rcases exists_entries hgives with ⟨entries, hentries⟩
    refine ⟨⟨entries⟩, (resolve_eq_ok_iff hincreasing).mpr ⟨hentries, ?_⟩⟩
    rw [symbols_eq hentries] at hdistinct
    exact hdistinct.of_map

/-- A legend has one entry for each visible line, and it can be asked for any of them. -/
structure Lists (rows : List (List Char)) (lines : List NumberedLine) (legend : Legend) :
    Prop where
  /-- The entries are in the order of the lines, and each is what its line makes alone. -/
  entries : List.Forall₂
    (fun line entry => resolve rows [line] = .ok ⟨[entry]⟩ ∧ entry.line = line.number)
    (visible lines) legend.entries
  size : legend.size = (visible lines).length
  entry : ∀ symbol entry, legend.entry? symbol = some entry ↔
    entry ∈ legend.entries ∧ entry.symbol = symbol
  tile : ∀ symbol tile, legend.tile? symbol = some tile ↔
    ∃ entry ∈ legend.entries, entry.symbol = symbol ∧ entry.tile = tile
  contains : ∀ symbol, legend.contains symbol = true ↔
    ∃ entry ∈ legend.entries, entry.symbol = symbol

/-- A line alone makes a legend of its entry. -/
theorem resolve_singleton {rows : List (List Char)} {line : NumberedLine} {entry : LegendEntry}
    (h : Gives rows line entry) : resolve rows [line] = .ok ⟨[entry]⟩ := by
  refine (resolve_eq_ok_iff (List.pairwise_singleton _ _)).mpr ⟨?_, List.nodup_singleton _⟩
  rw [visible_cons_of_some [] h.symbol_eq]
  exact .cons h .nil

theorem lists_of_resolve {rows : List (List Char)} {lines : List NumberedLine} {legend : Legend}
    (hincreasing : lines.Pairwise fun a b => a.number < b.number)
    (h : resolve rows lines = .ok legend) : Lists rows lines legend := by
  rcases (resolve_eq_ok_iff hincreasing).mp h with ⟨hgives, hsymbols⟩
  refine ⟨?_, hgives.length_eq.symm, fun _ _ => entry?_eq_some_iff hsymbols,
    fun _ _ => tile?_eq_some_iff hsymbols, ?_⟩
  · exact hgives.imp fun _ _ hentry => ⟨resolve_singleton hentry, hentry.line_eq⟩
  · intro symbol
    rw [contains, Option.isSome_iff_exists]
    simp only [entry?_eq_some_iff hsymbols]

/-- What is wrong with a line that stands behind others. -/
inductive FaultBehind (rows : List (List Char)) (before : List NumberedLine)
    (line : NumberedLine) : LegendError → Prop
  /-- It is not blank and cannot be read. -/
  | unread (fault : LineFault) (hvisible : line.symbol? ≠ none)
      (hread : LegendLine.read line = .error fault) :
      FaultBehind rows before line (.line line.number fault)
  /-- It can be read, but an earlier line begins with its symbol. -/
  | repeated (parsed : LegendLine) (earlier : NumberedLine)
      (hread : LegendLine.read line = .ok parsed) (hearlier : earlier ∈ before)
      (hsymbol : earlier.symbol? = some parsed.symbol) :
      FaultBehind rows before line (.line line.number (.duplicate parsed.symbol earlier.number))
  /-- It can be read and has a new symbol, but cannot be bound to the map. -/
  | unbound (parsed : LegendLine) (fault : EntryFault)
      (hread : LegendLine.read line = .ok parsed)
      (hnew : ∀ earlier ∈ before, earlier.symbol? ≠ some parsed.symbol)
      (hbind : parsed.bind rows = .error fault) :
      FaultBehind rows before line (errorAt line.number fault)

/-- What is wrong with the first line at fault: the lines in front of it are sound. -/
def FirstFault (rows : List (List Char)) (lines : List NumberedLine) (error : LegendError) :
    Prop :=
  ∃ before line after, lines = before ++ line :: after ∧ Sound rows before ∧
    FaultBehind rows before line error

theorem mem_linesOf_iff {lines : List NumberedLine} {line : NumberedLine} {symbol : Char} :
    line ∈ linesOf lines symbol ↔ line ∈ lines ∧ line.symbol? = some symbol := by
  rw [linesOf, List.mem_filter, decide_eq_true_eq]

/-- A legend knows of a symbol whether an earlier line begins with it, and which one. -/
theorem Defines.entry?_cases {rows : List (List Char)} {before : List NumberedLine}
    {legend : Legend} (h : Defines rows before legend) (symbol : Char) :
    (legend.entry? symbol = none ∧ ∀ earlier ∈ before, earlier.symbol? ≠ some symbol) ∨
      ∃ previous, legend.entry? symbol = some previous ∧
        (∃ earlier ∈ before, earlier.symbol? = some symbol) ∧
        ∀ earlier ∈ before, earlier.symbol? = some symbol → earlier.number = previous.line := by
  cases hentry : legend.entry? symbol with
  | none =>
      refine Or.inl ⟨rfl, fun earlier hearlier hsymbol => ?_⟩
      have hmem := mem_linesOf_iff.mpr ⟨hearlier, hsymbol⟩
      rw [h.undefined symbol hentry] at hmem
      exact List.not_mem_nil hmem
  | some previous =>
      rcases h.defined symbol previous hentry with ⟨line, parsed, hline, hread, hbind⟩
      have hgives : Gives rows line previous := ⟨parsed, hread, hbind⟩
      refine Or.inr ⟨previous, rfl, ⟨line, mem_linesOf_iff.mp ?_⟩, ?_⟩
      · rw [hline]
        exact List.mem_singleton_self line
      · intro earlier hearlier hsymbol
        have hmem := mem_linesOf_iff.mpr ⟨hearlier, hsymbol⟩
        rw [hline, List.mem_singleton] at hmem
        rw [hmem, hgives.line_eq]

section Line

variable {rows : List (List Char)} {before : List NumberedLine} {legend : Legend}
  {line : NumberedLine} {error : LegendError} (h : Defines rows before legend)

include h

/-- A line that is not added is at fault. -/
theorem faultBehind_of_addLine (herror : addLine rows legend line = .error error) :
    FaultBehind rows before line error := by
  by_cases hblank : line.symbol? = none
  · rw [addLine_of_blank hblank] at herror
    exact absurd herror (by simp only [reduceCtorEq, not_false_eq_true])
  · cases hread : LegendLine.read line with
    | error fault =>
        rw [addLine_of_unread hblank hread, Except.error.injEq] at herror
        rw [← herror]
        exact .unread fault hblank hread
    | ok parsed =>
        rw [addLine_of_read hread] at herror
        rcases h.entry?_cases parsed.symbol with
          ⟨hnone, hunused⟩ | ⟨previous, hprevious, ⟨earlier, hearlier, hsymbol⟩, hnumber⟩
        · -- The line is bound only because its symbol is new.
          rw [hnone] at herror
          cases hbind : parsed.bind rows with
          | error fault =>
              simp only [hbind, Except.error.injEq] at herror
              rw [← herror]
              exact .unbound parsed fault hread hunused hbind
          | ok entry => simp only [hbind, reduceCtorEq] at herror
        · -- The entry has the number of the line that defined the symbol.
          simp only [hprevious, Except.error.injEq] at herror
          rw [← herror, ← hnumber earlier hearlier hsymbol]
          exact .repeated parsed earlier hread hearlier hsymbol

/-- A line at fault is not added, and its fault is reported. -/
theorem addLine_of_faultBehind (hfault : FaultBehind rows before line error) :
    addLine rows legend line = .error error := by
  cases hfault with
  | unread fault hvisible hread => exact addLine_of_unread hvisible hread
  | repeated parsed earlier hread hearlier hsymbol =>
      rw [addLine_of_read hread]
      rcases h.entry?_cases parsed.symbol with ⟨_, hunused⟩ | ⟨previous, hprevious, _, hnumber⟩
      · exact absurd hsymbol (hunused earlier hearlier)
      · simp only [hprevious, hnumber earlier hearlier hsymbol]
  | unbound parsed fault hread hnew hbind =>
      rw [addLine_of_read hread]
      rcases h.entry?_cases parsed.symbol with
        ⟨hnone, _⟩ | ⟨_, _, ⟨earlier, hearlier, hsymbol⟩, _⟩
      · simp only [hnone, hbind]
      · exact absurd hsymbol (hnew earlier hearlier)

/-- What is wrong with one more line. -/
theorem addLine_eq_error_iff :
    addLine rows legend line = .error error ↔ FaultBehind rows before line error :=
  ⟨faultBehind_of_addLine h, addLine_of_faultBehind h⟩

end Line

/-- Lines behind others are added to what the others make. -/
theorem addLines_append {rows : List (List Char)} {legend next : Legend}
    {front : List NumberedLine} (back : List NumberedLine)
    (h : addLines rows legend front = .ok next) :
    addLines rows legend (front ++ back) = addLines rows next back := by
  induction front generalizing legend with
  | nil =>
      rw [addLines, Except.ok.injEq] at h
      rw [List.nil_append, h]
  | cons line more ih =>
      rcases addLines_cons_eq_ok_iff.mp h with ⟨step, hline, hrest⟩
      rw [List.cons_append, addLines, hline]
      exact ih hrest

/-- Lines cannot be added because of the first that cannot. -/
theorem addLines_eq_error_iff {rows : List (List Char)} {legend : Legend}
    {lines : List NumberedLine} {error : LegendError} :
    addLines rows legend lines = .error error ↔
      ∃ before line after next, lines = before ++ line :: after ∧
        addLines rows legend before = .ok next ∧ addLine rows next line = .error error := by
  constructor
  · intro h
    induction lines generalizing legend with
    | nil => exact absurd h (by simp only [addLines, reduceCtorEq, not_false_eq_true])
    | cons line rest ih =>
        rw [addLines] at h
        cases hline : addLine rows legend line with
        | error found =>
            rw [hline] at h
            exact ⟨[], line, rest, legend, rfl, rfl, hline.trans h⟩
        | ok step =>
            rw [hline] at h
            rcases ih h with ⟨before, other, after, next, rfl, hbefore, hother⟩
            refine ⟨line :: before, other, after, next, rfl, ?_, hother⟩
            rw [addLines, hline]
            exact hbefore
  · rintro ⟨before, line, after, next, rfl, hbefore, hline⟩
    rw [addLines_append _ hbefore, addLines, hline]

/-- Lines that are numbered upwards make no legend because of the first line at fault. -/
theorem resolve_eq_error_iff {rows : List (List Char)} {lines : List NumberedLine}
    {error : LegendError} (hincreasing : lines.Pairwise fun a b => a.number < b.number) :
    resolve rows lines = .error error ↔ FirstFault rows lines error := by
  rw [resolve, addLines_eq_error_iff]
  constructor
  · rintro ⟨before, line, after, next, rfl, hbefore, hline⟩
    have hsound := (exists_resolve_iff (List.pairwise_append.mp hincreasing).1).mp ⟨next, hbefore⟩
    exact ⟨before, line, after, rfl, hsound,
      (addLine_eq_error_iff (defines_of_resolve hbefore)).mp hline⟩
  · rintro ⟨before, line, after, rfl, hsound, hfault⟩
    rcases (exists_resolve_iff (List.pairwise_append.mp hincreasing).1).mpr hsound with
      ⟨next, hbefore⟩
    exact ⟨before, line, after, next, rfl, hbefore,
      (addLine_eq_error_iff (defines_of_resolve hbefore)).mpr hfault⟩

end Legend

/-- The sections of a level are refused for their legend exactly if it cannot be made. -/
theorem Source.compile_eq_legend_error_iff {source : Source} {options : CompileOptions}
    {error : LegendError} :
    source.compile options = .error (.legend error) ↔
      Legend.resolve source.rows source.legend = .error error := by
  fun_cases Source.compile source options with
  | case1 found hlegend =>
      rw [hlegend, Except.error.injEq, CompileError.legend.injEq, Except.error.injEq]
  | case2 legend hlegend classifier found hlevel =>
      simp only [hlegend, Except.error.injEq, reduceCtorEq]
  | case3 legend hlegend classifier level hlevel found hstrict =>
      simp only [hlegend, Except.error.injEq, reduceCtorEq]
  | case4 legend hlegend classifier level hlevel found hstrict => simp only [hlegend, reduceCtorEq]

/-- For every map and all legend lines that are numbered upwards: they make a legend exactly if
    each visible one can be read and bound and no two begin with one symbol, and it then has
    one entry for each of these lines. Otherwise the error is that of the first line at
    fault. If they are the legend of a text, the text is refused with the same error, and its
    lines have the numbers that they have in the text. -/
theorem resolve_exact {rows : List (List Char)} {lines : List NumberedLine}
    (hincreasing : lines.Pairwise fun a b => a.number < b.number) :
    ((∃ legend, Legend.resolve rows lines = .ok legend) ↔ Legend.Sound rows lines) ∧
      (∀ legend, Legend.resolve rows lines = .ok legend → Legend.Lists rows lines legend) ∧
      (∀ error, Legend.resolve rows lines = .error error ↔
        Legend.FirstFault rows lines error) ∧
      ∀ text, Source.ofText text = ⟨rows, lines⟩ →
        (∀ options error, compile text options = .error (.legend error) ↔
          Legend.FirstFault rows lines error) ∧
        ∀ line ∈ lines, Text.IsLine text line.number line.text := by
  refine ⟨Legend.exists_resolve_iff hincreasing, fun _ => Legend.lists_of_resolve hincreasing,
    fun _ => Legend.resolve_eq_error_iff hincreasing, fun text htext => ⟨?_, ?_⟩⟩
  · intro options error
    rw [compile, htext, Source.compile_eq_legend_error_iff, Legend.resolve_eq_error_iff hincreasing]
  · intro line hline
    refine Source.isLine_of_mem_legend ?_
    rw [htext]
    exact hline

/-- The third legend line repeats a symbol, and its expression has a bad shape; the last one
    cannot be read. -/
def twiceText : List Char := "S\n---\nA: Ice\n \nA: Door(Red, Blue)\nB\n".toList

def twiceLines : List NumberedLine :=
  [⟨3, "A: Ice".toList⟩, ⟨4, " ".toList⟩, ⟨5, "A: Door(Red, Blue)".toList⟩, ⟨6, "B".toList⟩]

/-- The repeated symbol is reported, with the lines that it stands on. -/
theorem twice_resolve_exact :
    twiceLines.Pairwise (fun a b => a.number < b.number) ∧
      Source.ofText twiceText = ⟨["S".toList], twiceLines⟩ ∧
      Legend.FirstFault ["S".toList] twiceLines (.line 5 (.duplicate 'A' 3)) ∧
      compile twiceText {} = .error (.legend (.line 5 (.duplicate 'A' 3))) ∧
      Text.IsLine twiceText 5 "A: Door(Red, Blue)".toList := by
  have hincreasing : twiceLines.Pairwise fun a b => a.number < b.number := by decide
  have htext : Source.ofText twiceText = ⟨["S".toList], twiceLines⟩ := by decide +kernel
  rcases @resolve_exact ["S".toList] twiceLines hincreasing with ⟨_, _, hfault, hall⟩
  have hfirst := (hfault (.line 5 (.duplicate 'A' 3))).mp (by decide +kernel)
  rcases hall twiceText htext with ⟨hcompile, hlines⟩
  exact ⟨hincreasing, htext, hfirst, (hcompile {} _).mpr hfirst, hlines ⟨5, _⟩ (by decide)⟩

end PuzzleLevel
