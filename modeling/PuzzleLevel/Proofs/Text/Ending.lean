import Mathlib.Data.List.Basic
import PuzzleLevel.Proofs.Text.Line
import PuzzleLevel.Text.Mark

/-!
# Ways to Write Lines

The lines of a text do not tell how they were written. Each may end in a line feed or in a
carriage return and a line feed, and the last one need not end in anything, so several texts
have the same lines. This module says which: lines come back from either way of writing
them, and a text that holds no carriage return has the same lines when all its line feeds get
another ending.

Not every list of lines can be written. A line must hold no line feed, which would cut it,
and must not end in a carriage return, which a line feed behind it would take away.

A text comes back from its lines as well, but for the line feed at its end. Without a
carriage return there is one way only to end a line, so nothing else is lost.

## Main definitions

* `Ending`: What a line ends in.
* `IsLineText`: A line can be written.
* `ended`: The text in which every line has an ending.
* `joined`: The text in which line feeds stand between the lines.
* `withEnding`: A text with another ending in place of every line feed.
* `withoutLastFeed`: A text without the line feed at its end.

## Theorems

* `lines_ended`, `lines_unlines`: Lines that can be written are read back.
* `lines_withEnding`, `lines_withEnding_append`: Other endings leave the lines as they are.
* `joined_lines`: A text comes back from its lines, up to the line feed at its end.
* `mem_lines_iff`: What the lines of a text are, said of the text itself.
-/

namespace PuzzleLevel

namespace Text

/-- What a line ends in. -/
inductive Ending where
  | feed
  | returnFeed
  deriving DecidableEq, Repr

/-- The characters of an ending. -/
def Ending.chars : Ending → List Char
  | feed => ['\n']
  | returnFeed => ['\r', '\n']

/-- A line can be written in front of any ending. -/
structure IsLineText (line : List Char) : Prop where
  feed : '\n' ∉ line
  ends : line.getLast? ≠ some '\r'

/-- The text in which every line has the given ending. -/
def ended (ending : Ending) (ls : List (List Char)) : List Char :=
  ls.flatMap fun line => line ++ ending.chars

/-- The text in which line feeds stand between the lines and none behind the last. -/
def joined (ls : List (List Char)) : List Char :=
  ['\n'].intercalate ls

/-- A text with another ending in place of every line feed. -/
def withEnding (ending : Ending) (text : List Char) : List Char :=
  text.flatMap fun c => if c = '\n' then ending.chars else [c]

/-- A text without the line feed at its end, if there is one. -/
def withoutLastFeed (text : List Char) : List Char :=
  if text.getLast? = some '\n' then text.dropLast else text

section Endings

variable {ending : Ending}

/-- A line in front of an ending is read back, whatever follows. -/
theorem lines_append_chars {line : List Char} (rest : List Char) (h : IsLineText line) :
    lines (line ++ ending.chars ++ rest) = line :: lines rest := by
  rw [List.append_assoc]
  cases ending with
  | feed => exact lines_append_newline line rest h.feed h.ends
  | returnFeed => exact lines_append_return rest h.feed

/-- An ending with nothing in front of it is an empty line. -/
theorem lines_chars_append (rest : List Char) : lines (ending.chars ++ rest) = [] :: lines rest :=
  lines_append_chars rest ⟨List.not_mem_nil, by simp⟩

/-- An ending is no byte order mark. -/
theorem head?_chars_append (rest : List Char) :
    (ending.chars ++ rest).head? ≠ some byteOrderMark := by
  cases ending with
  | feed => simp [Ending.chars, byteOrderMark]
  | returnFeed => simp [Ending.chars, byteOrderMark]

/-- Lines that can be written are read back. -/
theorem lines_ended {ls : List (List Char)} (h : ∀ line ∈ ls, IsLineText line) :
    lines (ended ending ls) = ls := by
  induction ls with
  | nil => rfl
  | cons line more ih =>
      have hmore := ih fun other hother => h other (List.mem_cons_of_mem _ hother)
      rw [ended, List.flatMap_cons, lines_append_chars _ (h line (List.mem_cons_self ..))]
      rw [ended] at hmore
      rw [hmore]

theorem unlines_eq_ended (ls : List (List Char)) : unlines ls = ended .feed ls := by
  induction ls with
  | nil => rfl
  | cons line more ih =>
      rw [unlines, ih]
      simp [ended, Ending.chars]

/-- Lines that can be written with line feeds are read back. -/
theorem lines_unlines {ls : List (List Char)} (h : ∀ line ∈ ls, IsLineText line) :
    lines (unlines ls) = ls := by
  rw [unlines_eq_ended, lines_ended h]

/-- A character that is part of no ending belongs to the line behind it. -/
theorem lines_cons {c : Char} (rest : List Char) (hfeed : c ≠ '\n') (hreturn : c ≠ '\r') :
    lines (c :: rest) = match lines rest with
      | [] => [[c]]
      | line :: more => (c :: line) :: more :=
  lines.eq_4 c rest hfeed fun _ h _ => hreturn h

theorem withEnding_feed (rest : List Char) :
    withEnding ending ('\n' :: rest) = ending.chars ++ withEnding ending rest := by
  rw [withEnding, List.flatMap_cons, if_pos rfl, withEnding]

theorem withEnding_other {c : Char} (rest : List Char) (h : c ≠ '\n') :
    withEnding ending (c :: rest) = c :: withEnding ending rest := by
  rw [withEnding, List.flatMap_cons, if_neg h, List.singleton_append, withEnding]

/-- Without carriage returns in a text, other endings leave its lines as they are. -/
theorem lines_withEnding {text : List Char} (h : '\r' ∉ text) :
    lines (withEnding ending text) = lines text := by
  induction text with
  | nil => rfl
  | cons c rest ih =>
      rw [List.mem_cons, not_or] at h
      by_cases hfeed : c = '\n'
      · rw [hfeed, withEnding_feed, lines_chars_append, lines, ih h.2]
      · rw [withEnding_other rest hfeed, lines_cons _ hfeed (Ne.symm h.1),
          lines_cons _ hfeed (Ne.symm h.1), ih h.2]

/-- The last line may be given an ending if it has none, and not the same as the others. -/
theorem lines_withEnding_append {text : List Char} (last : Ending) (h : '\r' ∉ text)
    (hne : text ≠ []) (hlast : text.getLast? ≠ some '\n') :
    lines (withEnding ending text ++ last.chars) = lines text := by
  induction text with
  | nil => exact absurd rfl hne
  | cons c rest ih =>
      rw [List.mem_cons, not_or] at h
      by_cases hrest : rest = []
      · -- The text is one character, and that is no line feed.
        have hfeed : c ≠ '\n' := by
          intro hc
          rw [hrest, hc] at hlast
          exact hlast rfl
        rw [hrest, withEnding_other [] hfeed]
        have hline : IsLineText [c] :=
          ⟨by simpa using Ne.symm hfeed, by simpa using Ne.symm h.1⟩
        have hread : lines ([c] ++ last.chars ++ []) = [c] :: lines [] :=
          lines_append_chars [] hline
        rw [List.append_nil] at hread
        rw [lines_cons _ hfeed (Ne.symm h.1)]
        exact hread
      · have hbehind : rest.getLast? ≠ some '\n' := by
          intro hc
          rw [List.getLast?_cons, hc] at hlast
          exact hlast rfl
        have hmore := ih h.2 hrest hbehind
        by_cases hfeed : c = '\n'
        · rw [hfeed, withEnding_feed, List.append_assoc, lines_chars_append, lines, hmore]
        · rw [withEnding_other rest hfeed, List.cons_append, lines_cons _ hfeed (Ne.symm h.1),
            lines_cons _ hfeed (Ne.symm h.1), hmore]

end Endings

theorem lines_eq_nil_iff {text : List Char} : lines text = [] ↔ text = [] := by
  constructor
  · intro h
    rcases lines_cases text with ⟨hempty, _⟩ | ⟨_, _, hone⟩ | ⟨first, rest, rfl, hfirst⟩
    · exact hempty
    · rw [hone] at h
      exact absurd h (by simp only [reduceCtorEq, not_false_eq_true])
    · rcases exists_lines_append hfirst with ⟨_, _, _, _, hread⟩
      rw [hread] at h
      exact absurd h (by simp only [reduceCtorEq, not_false_eq_true])
  · intro h
    rw [h, lines]

theorem withoutLastFeed_cons {c : Char} {rest : List Char} (h : rest ≠ []) :
    withoutLastFeed (c :: rest) = c :: withoutLastFeed rest := by
  have hlast : (c :: rest).getLast? = rest.getLast? := by
    cases rest with
    | nil => exact absurd rfl h
    | cons d more => rw [List.getLast?_cons_cons]
  rw [withoutLastFeed, withoutLastFeed, hlast]
  by_cases hfeed : rest.getLast? = some '\n'
  · rw [if_pos hfeed, if_pos hfeed, List.dropLast_cons_of_ne_nil h]
  · rw [if_neg hfeed, if_neg hfeed]

/-- A character in front of the first line goes in front of the text. -/
theorem joined_cons_cons (c : Char) (line : List Char) (more : List (List Char)) :
    joined ((c :: line) :: more) = c :: joined (line :: more) := by
  cases more with
  | nil => simp only [joined, List.intercalate_singleton]
  | cons next others =>
      simp only [joined, List.intercalate_cons_cons, List.cons_append]

/-- An empty first line is a line feed, unless it is all there is. -/
theorem joined_nil_cons {ls : List (List Char)} (h : ls ≠ []) :
    joined ([] :: ls) = '\n' :: joined ls := by
  cases ls with
  | nil => exact absurd rfl h
  | cons line more =>
      simp only [joined, List.intercalate_cons_cons, List.nil_append, List.singleton_append]

/-- A text without carriage returns comes back from its lines, up to the line feed at its
    end. -/
theorem joined_lines {text : List Char} (h : '\r' ∉ text) :
    joined (lines text) = withoutLastFeed text := by
  induction text with
  | nil => rfl
  | cons c rest ih =>
      rw [List.mem_cons, not_or] at h
      -- A last character has no line behind it that it could become a part of.
      by_cases hrest : rest = []
      · rw [hrest]
        by_cases hfeed : c = '\n'
        · rw [hfeed]
          rfl
        · have hlast : [c].getLast? ≠ some '\n' := by simpa using hfeed
          rw [lines_cons _ hfeed (Ne.symm h.1), withoutLastFeed, if_neg hlast]
          rfl
      · rw [withoutLastFeed_cons hrest, ← ih h.2]
        by_cases hfeed : c = '\n'
        · rw [hfeed, lines, joined_nil_cons fun hnone => hrest (lines_eq_nil_iff.mp hnone)]
        · rw [lines_cons _ hfeed (Ne.symm h.1)]
          cases hlines : lines rest with
          | nil => exact absurd (lines_eq_nil_iff.mp hlines) hrest
          | cons line more => exact joined_cons_cons c line more

/-- A line that is not empty is one of the lines of a text if it has a number there. An empty
    one behind the last line feed would have a number and is none of them. -/
theorem mem_lines_iff {text line : List Char} (hne : line ≠ []) :
    line ∈ lines text ↔ ∃ number, IsLine text number line := by
  constructor
  · intro h
    rcases List.getElem?_of_mem h with ⟨i, hi⟩
    exact ⟨i + 1, isLine_of_lines hi⟩
  · rintro ⟨number, h⟩
    induction h with
    | first line rest hfeed hend =>
        cases hend with
        | last =>
            rw [List.append_nil, lines_of_notMem hne hfeed]
            exact List.mem_singleton_self line
        | feed rest hreturn =>
            rw [lines_append_newline line rest hfeed hreturn]
            exact List.mem_cons_self ..
        | returnFeed rest =>
            rw [lines_append_return rest hfeed]
            exact List.mem_cons_self ..
    | later earlier rest number line hfeed _ ih =>
        rcases exists_lines_append hfeed with ⟨found, _, _, _, hread⟩
        rw [hread]
        exact List.mem_cons_of_mem _ (ih hne)

end Text

end PuzzleLevel
