import Mathlib.Data.List.Nodup
import PuzzleLevel.Proofs.Legend.Resolution

/-!
# The Entries of a Legend

When lines are numbered upwards, as those of a file are, an entry is always inserted
behind all others. A legend is then no more than its visible lines read and bound one by
one: there is one entry for each of them, in their order, and the only thing that two lines
have to do with each other is that their symbols must differ. `resolve_eq_ok_iff` says this
in both directions, so it also says when a legend can be made at all.

A line can therefore be taken away without harm to the others, and all that goes with it is
its own entry.

## Main definitions

* `Legend.visible`: The lines that are not blank.
* `Legend.Gives`: What entry a line gives.
* `Legend.GoesOn`: A legend goes on with the entries of some lines.

## Theorems

* `goesOn_visible_cons_iff`, `addLines_cons_eq_ok_iff_of_lt`: What one line more does to both.
* `addLines_eq_ok_iff`: What becomes of a legend with more lines.
* `resolve_eq_ok_iff`: When a legend can be made, and what its entries are.
* `entry?_eq_some_iff`, `tile?_eq_some_iff`: The entry of a symbol is the one that has it.
* `increasing_of_resolve`: Entries are in the order of their lines.
* `exists_line_of_mem`: Every entry comes from one of the lines.
* `resolve_without`: What a legend is without one of its lines.
-/

namespace PuzzleLevel

namespace Legend

/-- The lines that are not blank. -/
def visible (lines : List NumberedLine) : List NumberedLine :=
  lines.filter fun line => line.symbol?.isSome

/-- A line gives an entry if it can be read and bound to the map. -/
def Gives (rows : List (List Char)) (line : NumberedLine) (entry : LegendEntry) : Prop :=
  ∃ parsed, LegendLine.read line = .ok parsed ∧ parsed.bind rows = .ok entry

theorem Gives.unique {rows : List (List Char)} {line : NumberedLine} {entry other : LegendEntry}
    (h : Gives rows line entry) (hother : Gives rows line other) : other = entry := by
  rcases h with ⟨parsed, hread, hbind⟩
  rcases hother with ⟨parsed', hread', hbind'⟩
  rw [hread, Except.ok.injEq] at hread'
  rw [← hread', hbind, Except.ok.injEq] at hbind'
  exact hbind'.symm

/-- The entry of a line has its number. -/
theorem Gives.line_eq {rows : List (List Char)} {line : NumberedLine} {entry : LegendEntry}
    (h : Gives rows line entry) : entry.line = line.number := by
  rcases h with ⟨parsed, hread, hbind⟩
  rw [(bind_eq_ok_iff.mp hbind).2.2]
  exact (LegendLine.read_eq_ok_iff.mp hread).1

/-- The entry of a line has the symbol that the line begins with. -/
theorem Gives.symbol_eq {rows : List (List Char)} {line : NumberedLine} {entry : LegendEntry}
    (h : Gives rows line entry) : line.symbol? = some entry.symbol := by
  rcases h with ⟨parsed, hread, hbind⟩
  rw [(bind_eq_ok_iff.mp hbind).2.1]
  exact symbol?_of_read hread

theorem visible_append (front back : List NumberedLine) :
    visible (front ++ back) = visible front ++ visible back :=
  List.filter_append ..

theorem visible_cons_of_none {line : NumberedLine} (more : List NumberedLine)
    (h : line.symbol? = none) : visible (line :: more) = visible more := by
  rw [visible, List.filter_cons_of_neg (by rw [h]; exact Bool.false_ne_true)]
  rfl

theorem visible_cons_of_some {line : NumberedLine} {symbol : Char} (more : List NumberedLine)
    (h : line.symbol? = some symbol) : visible (line :: more) = line :: visible more := by
  rw [visible, List.filter_cons_of_pos (by rw [h]; rfl)]
  rfl

theorem visible_eq_nil {lines : List NumberedLine} (h : ∀ line ∈ lines, line.symbol? = none) :
    visible lines = [] := by
  rw [visible, List.filter_eq_nil_iff]
  intro line hline
  rw [h line hline]
  exact Bool.false_ne_true

/-- An entry of a later line is inserted behind all others. -/
theorem insertByLine_of_lt {entry : LegendEntry} {entries : List LegendEntry}
    (h : ∀ earlier ∈ entries, earlier.line < entry.line) :
    insertByLine entry entries = entries ++ [entry] := by
  induction entries with
  | nil => rfl
  | cons first more ih =>
      have hfirst := h first (List.mem_cons_self ..)
      rw [insertByLine, if_neg (Nat.not_lt_of_lt hfirst),
        ih fun earlier hmem => h earlier (List.mem_cons_of_mem _ hmem), List.cons_append]

theorem entry?_eq_none_iff {legend : Legend} {symbol : Char} :
    legend.entry? symbol = none ↔ symbol ∉ legend.entries.map LegendEntry.symbol := by
  unfold entry?
  rw [List.find?_eq_none, List.mem_map]
  simp only [decide_eq_true_eq, not_exists, not_and]

/-- Where no symbol is defined twice, the entry of a symbol is the one that has it. -/
theorem entry?_eq_some_iff {legend : Legend}
    (hsymbols : (legend.entries.map LegendEntry.symbol).Nodup) {symbol : Char}
    {entry : LegendEntry} :
    legend.entry? symbol = some entry ↔ entry ∈ legend.entries ∧ entry.symbol = symbol := by
  constructor
  · intro h
    exact ⟨List.mem_of_find?_eq_some h, by simpa only [decide_eq_true_eq] using List.find?_some h⟩
  · rintro ⟨hentry, rfl⟩
    cases hfind : legend.entry? entry.symbol with
    | none => exact absurd (List.mem_map_of_mem hentry) (entry?_eq_none_iff.mp hfind)
    | some found =>
        have hsame : found.symbol = entry.symbol := by
          simpa only [decide_eq_true_eq] using List.find?_some hfind
        rw [List.inj_on_of_nodup_map hsymbols (List.mem_of_find?_eq_some hfind) hentry hsame]

/-- What a legend says of a symbol is the tile of the entry that has it. -/
theorem tile?_eq_some_iff {legend : Legend}
    (hsymbols : (legend.entries.map LegendEntry.symbol).Nodup) {symbol : Char}
    {tile : CustomTile} :
    legend.tile? symbol = some tile ↔
      ∃ entry ∈ legend.entries, entry.symbol = symbol ∧ entry.tile = tile := by
  rw [tile?, Option.map_eq_some_iff]
  simp only [entry?_eq_some_iff hsymbols, and_assoc]

/-- What becomes of a legend with one more line, if the line comes after all that are in it:
    nothing if the line is blank, and otherwise the entry of the line is put behind the
    others. -/
theorem addLine_eq_ok_iff_of_lt {rows : List (List Char)} {legend next : Legend}
    {line : NumberedLine} (hbelow : ∀ entry ∈ legend.entries, entry.line < line.number) :
    addLine rows legend line = .ok next ↔
      (line.symbol? = none ∧ next = legend) ∨
        ∃ entry, Gives rows line entry ∧
          entry.symbol ∉ legend.entries.map LegendEntry.symbol ∧
          next = ⟨legend.entries ++ [entry]⟩ := by
  rw [addLine_eq_ok_iff]
  refine or_congr_right ?_
  constructor
  · rintro ⟨parsed, entry, hread, hnew, hbind, rfl⟩
    have hgives : Gives rows line entry := ⟨parsed, hread, hbind⟩
    refine ⟨entry, hgives, ?_, ?_⟩
    · rw [(bind_eq_ok_iff.mp hbind).2.1]
      exact entry?_eq_none_iff.mp hnew
    · rw [insert, insertByLine_of_lt (by rwa [hgives.line_eq])]
  · rintro ⟨entry, hgives, hnew, rfl⟩
    rcases hgives with ⟨parsed, hread, hbind⟩
    have hgives : Gives rows line entry := ⟨parsed, hread, hbind⟩
    refine ⟨parsed, entry, hread, ?_, hbind, ?_⟩
    · rw [← (bind_eq_ok_iff.mp hbind).2.1]
      exact entry?_eq_none_iff.mpr hnew
    · rw [insert, insertByLine_of_lt (by rwa [hgives.line_eq])]

/-- A legend goes on with the entries that some lines give, and all its symbols differ. -/
def GoesOn (rows : List (List Char)) (legend : Legend) (lines : List NumberedLine)
    (next : Legend) : Prop :=
  ∃ more, next.entries = legend.entries ++ more ∧ List.Forall₂ (Gives rows) lines more ∧
    (next.entries.map LegendEntry.symbol).Nodup

theorem goesOn_nil_iff {rows : List (List Char)} {legend next : Legend}
    (hsymbols : (legend.entries.map LegendEntry.symbol).Nodup) :
    GoesOn rows legend [] next ↔ next = legend := by
  constructor
  · rintro ⟨more, hnext, hmore, _⟩
    rw [List.forall₂_nil_left_iff.mp hmore, List.append_nil] at hnext
    cases legend
    cases next
    exact congrArg Legend.mk hnext
  · rintro rfl
    exact ⟨[], (List.append_nil _).symm, .nil, hsymbols⟩

/-- To go on with a line and more is to take the entry of the line, which has a new symbol,
    and to go on from there. -/
theorem goesOn_cons_iff {rows : List (List Char)} {legend next : Legend} {line : NumberedLine}
    {rest : List NumberedLine} :
    GoesOn rows legend (line :: rest) next ↔
      ∃ entry, Gives rows line entry ∧ entry.symbol ∉ legend.entries.map LegendEntry.symbol ∧
        GoesOn rows ⟨legend.entries ++ [entry]⟩ rest next := by
  constructor
  · rintro ⟨more, hnext, hmore, hdistinct⟩
    rcases List.forall₂_cons_left_iff.mp hmore with ⟨entry, tail, hgives, htail, rfl⟩
    refine ⟨entry, hgives, ?_, tail, ?_, htail, hdistinct⟩
    · rw [hnext, List.map_append, List.map_cons] at hdistinct
      exact fun hold => (List.nodup_append.mp hdistinct).2.2 _ hold _ (List.mem_cons_self ..) rfl
    · rw [hnext, List.append_assoc, List.singleton_append]
  · rintro ⟨entry, hgives, _, tail, hnext, htail, hdistinct⟩
    refine ⟨entry :: tail, ?_, .cons hgives htail, hdistinct⟩
    rw [hnext, List.append_assoc, List.singleton_append]

/-- With a line that may be blank, it goes on behind the line or behind the entry of the line. -/
theorem goesOn_visible_cons_iff {rows : List (List Char)} {legend next : Legend}
    {line : NumberedLine} {rest : List NumberedLine} :
    GoesOn rows legend (visible (line :: rest)) next ↔
      (line.symbol? = none ∧ GoesOn rows legend (visible rest) next) ∨
        ∃ entry, Gives rows line entry ∧
          entry.symbol ∉ legend.entries.map LegendEntry.symbol ∧
          GoesOn rows ⟨legend.entries ++ [entry]⟩ (visible rest) next := by
  cases hsymbol : line.symbol? with
  | none =>
      rw [visible_cons_of_none rest hsymbol]
      constructor
      · exact fun hrest => Or.inl ⟨rfl, hrest⟩
      · rintro (⟨_, hrest⟩ | ⟨entry, hgives, _⟩)
        · exact hrest
        · -- A line that gives an entry is not blank.
          rw [hgives.symbol_eq] at hsymbol
          exact absurd hsymbol (by simp only [reduceCtorEq, not_false_eq_true])
  | some symbol =>
      rw [visible_cons_of_some rest hsymbol, goesOn_cons_iff]
      simp only [reduceCtorEq, false_and, false_or]

/-- So it is with lines that are added, if the line comes after all that are in the legend. -/
theorem addLines_cons_eq_ok_iff_of_lt {rows : List (List Char)} {legend next : Legend}
    {line : NumberedLine} {rest : List NumberedLine}
    (hbelow : ∀ entry ∈ legend.entries, entry.line < line.number) :
    addLines rows legend (line :: rest) = .ok next ↔
      (line.symbol? = none ∧ addLines rows legend rest = .ok next) ∨
        ∃ entry, Gives rows line entry ∧
          entry.symbol ∉ legend.entries.map LegendEntry.symbol ∧
          addLines rows ⟨legend.entries ++ [entry]⟩ rest = .ok next := by
  rw [addLines_cons_eq_ok_iff]
  simp only [addLine_eq_ok_iff_of_lt hbelow]
  constructor
  · rintro ⟨step, ⟨hblank, rfl⟩ | ⟨entry, hgives, hnew, rfl⟩, hmore⟩
    · exact Or.inl ⟨hblank, hmore⟩
    · exact Or.inr ⟨entry, hgives, hnew, hmore⟩
  · rintro (⟨hblank, hmore⟩ | ⟨entry, hgives, hnew, hmore⟩)
    · exact ⟨legend, Or.inl ⟨hblank, rfl⟩, hmore⟩
    · exact ⟨_, Or.inr ⟨entry, hgives, hnew, rfl⟩, hmore⟩

/-- With the entry of a line behind the others, all entries still come before the rest of the
    lines. -/
theorem Gives.below {rows : List (List Char)} {line : NumberedLine} {entry : LegendEntry}
    (h : Gives rows line entry) {entries : List LegendEntry} {rest : List NumberedLine}
    (hbelow : ∀ earlier ∈ entries, ∀ later ∈ rest, earlier.line < later.number)
    (hline : ∀ later ∈ rest, line.number < later.number) :
    ∀ earlier ∈ entries ++ [entry], ∀ later ∈ rest, earlier.line < later.number := by
  intro earlier hearlier later hlater
  rcases List.mem_append.mp hearlier with hold | hown
  · exact hbelow earlier hold later hlater
  · rw [List.mem_singleton.mp hown, h.line_eq]
    exact hline later hlater

/-- What becomes of a legend with more lines that are numbered upwards: it goes on with those
    that are not blank. -/
theorem addLines_eq_ok_iff {rows : List (List Char)} {legend next : Legend}
    {lines : List NumberedLine}
    (hbelow : ∀ entry ∈ legend.entries, ∀ line ∈ lines, entry.line < line.number)
    (hincreasing : lines.Pairwise fun a b => a.number < b.number)
    (hsymbols : (legend.entries.map LegendEntry.symbol).Nodup) :
    addLines rows legend lines = .ok next ↔ GoesOn rows legend (visible lines) next := by
  induction lines generalizing legend with
  | nil =>
      rw [addLines, Except.ok.injEq, eq_comm]
      exact (goesOn_nil_iff hsymbols).symm
  | cons line rest ih =>
      rw [List.pairwise_cons] at hincreasing
      have hline := fun entry hentry => hbelow entry hentry line (List.mem_cons_self ..)
      have hrest : ∀ entry ∈ legend.entries, ∀ later ∈ rest, entry.line < later.number :=
        fun entry hentry later hlater =>
          hbelow entry hentry later (List.mem_cons_of_mem _ hlater)
      rw [addLines_cons_eq_ok_iff_of_lt hline, goesOn_visible_cons_iff]
      refine or_congr (and_congr_right fun _ => ih hrest hincreasing.2 hsymbols)
        (exists_congr fun entry => and_congr_right fun hgives => and_congr_right fun hnew => ?_)
      -- The entry of this line keeps what the induction asks of a legend.
      refine ih (hgives.below hrest hincreasing.1) hincreasing.2 ?_
      rw [List.map_append, List.map_singleton, ← List.concat_eq_append]
      exact (List.nodup_concat _ _).mpr ⟨hnew, hsymbols⟩

/-- When lines that are numbered upwards make a legend, and which one: each visible line
    gives the entry at its place, and all symbols differ. -/
theorem resolve_eq_ok_iff {rows : List (List Char)} {lines : List NumberedLine} {legend : Legend}
    (hincreasing : lines.Pairwise fun a b => a.number < b.number) :
    resolve rows lines = .ok legend ↔
      List.Forall₂ (Gives rows) (visible lines) legend.entries ∧
        (legend.entries.map LegendEntry.symbol).Nodup := by
  have hnone : ∀ entry ∈ empty.entries, ∀ line ∈ lines, entry.line < line.number :=
    fun _ h => absurd h List.not_mem_nil
  rw [resolve, addLines_eq_ok_iff hnone hincreasing .nil]
  constructor
  · rintro ⟨more, hentries, hgives, hsymbols⟩
    rw [show legend.entries = more from hentries]
    rw [show legend.entries = more from hentries] at hsymbols
    exact ⟨hgives, hsymbols⟩
  · rintro ⟨hgives, hsymbols⟩
    exact ⟨legend.entries, rfl, hgives, hsymbols⟩

theorem numbers_eq {rows : List (List Char)} {lines : List NumberedLine}
    {entries : List LegendEntry} (h : List.Forall₂ (Gives rows) lines entries) :
    lines.map NumberedLine.number = entries.map LegendEntry.line := by
  induction h with
  | nil => rfl
  | cons hfirst _ ih => rw [List.map_cons, List.map_cons, hfirst.line_eq, ih]

/-- The symbols of entries are those that their lines begin with. -/
theorem symbols_eq {rows : List (List Char)} {lines : List NumberedLine}
    {entries : List LegendEntry} (h : List.Forall₂ (Gives rows) lines entries) :
    lines.map NumberedLine.symbol? = (entries.map LegendEntry.symbol).map some := by
  induction h with
  | nil => rfl
  | cons hfirst _ ih =>
      rw [List.map_cons, List.map_cons, List.map_cons, hfirst.symbol_eq, ih]

section Resolved

variable {rows : List (List Char)} {lines : List NumberedLine} {legend : Legend}
  (hincreasing : lines.Pairwise fun a b => a.number < b.number)
  (h : resolve rows lines = .ok legend)

include hincreasing h

/-- Entries are in the order of their lines. -/
theorem increasing_of_resolve : legend.entries.Pairwise fun a b => a.line < b.line := by
  have hlines := numbers_eq ((resolve_eq_ok_iff hincreasing).mp h).1
  rw [← List.pairwise_map (f := LegendEntry.line) (R := (· < ·)), ← hlines, List.pairwise_map]
  exact hincreasing.sublist List.filter_sublist

/-- Every entry comes from one of the lines. -/
theorem exists_line_of_mem {entry : LegendEntry} (hentry : entry ∈ legend.entries) :
    ∃ line ∈ lines, Gives rows line entry := by
  rcases exists_of_mem_right ((resolve_eq_ok_iff hincreasing).mp h).1 hentry with
    ⟨line, hline, hgives⟩
  exact ⟨line, (List.mem_filter.mp hline).1, hgives⟩

end Resolved

/-- A legend without one of its lines is as before, without the entry of the line. A gap of
    blank lines may be in its place. -/
theorem resolve_without {rows : List (List Char)} {before gap after : List NumberedLine}
    {line : NumberedLine} {legend : Legend} {entry : LegendEntry}
    (hincreasing : (before ++ line :: after).Pairwise fun a b => a.number < b.number)
    (hgap : (before ++ gap ++ after).Pairwise fun a b => a.number < b.number)
    (hblank : ∀ l ∈ gap, l.symbol? = none)
    (h : resolve rows (before ++ line :: after) = .ok legend) (hentry : Gives rows line entry) :
    ∃ front back, legend.entries = front ++ entry :: back ∧
      resolve rows (before ++ gap ++ after) = .ok ⟨front ++ back⟩ := by
  rcases (resolve_eq_ok_iff hincreasing).mp h with ⟨hgives, hsymbols⟩
  rw [visible_append, visible_cons_of_some after hentry.symbol_eq] at hgives
  -- The entries are cut where the lines are.
  have hentries := (List.take_append_drop (visible before).length legend.entries).symm
  have hfront := (List.forall₂_take_append _ _ _ hgives.flip).flip
  have hrest := (List.forall₂_drop_append _ _ _ hgives.flip).flip
  rcases List.forall₂_cons_left_iff.mp hrest with ⟨own, back, hown, hback, hcut⟩
  rw [hcut, hentry.unique hown] at hentries
  refine ⟨_, back, hentries, (resolve_eq_ok_iff hgap).mpr ⟨?_, ?_⟩⟩
  · rw [visible_append, visible_append, visible_eq_nil hblank, List.append_nil]
    exact List.rel_append hfront hback
  · rw [hentries] at hsymbols
    exact hsymbols.sublist (((List.sublist_cons_self entry back).append_left _).map _)

end Legend

end PuzzleLevel
