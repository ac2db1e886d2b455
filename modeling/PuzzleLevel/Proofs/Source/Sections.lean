import PuzzleLevel.Proofs.Source
import PuzzleLevel.Proofs.Text.Ending

/-!
# Sections Written and Read

Writing a level text puts its rows, the separator and its legend one below the other, and
reading it takes them apart at the first line that is the separator. So a row must not be
the separator, but a legend line may be, and both sections may be empty or hold empty lines.
The number of a legend line tells how many lines stand in front of it, one of which is the
separator.

In the other direction a text is compared with its sections put together again. That a text
has a separator is said of the text itself, by the numbers of its lines, and not of the
lines that are read.

The mark in front of a text belongs to none of its lines, so a text that starts with it is
not the text of its sections.

## Main definitions

* `Source.ReadBack`: Two sections are the rows and legend texts that were written.
* `Source.Rejoins`: Two sections make up a text.

## Theorems

* `readBack_ended`: What was written is read back.
* `rejoins_ofText`: A text comes back from its sections.
* `sections_round_trip`: Both directions.
-/

namespace PuzzleLevel

namespace Source

/-- The sections are the given rows and legend texts, which are numbered from behind the
    separator. -/
structure ReadBack (source : Source) (rows texts : List (List Char)) : Prop where
  rows_eq : source.rows = rows
  texts_eq : source.legend.map NumberedLine.text = texts
  numbers_eq : source.legend.map NumberedLine.number = List.range' (rows.length + 2) texts.length

/-- The sections make up the text, but for a line feed at its end. -/
structure Rejoins (source : Source) (text : List Char) : Prop where
  notMem_rows : separator ∉ source.rows
  /-- With a separator the text is the rows, the separator and the legend texts. -/
  separated : (∃ number, Text.IsLine text number separator) →
    Text.joined (source.rows ++ separator :: source.legend.map NumberedLine.text) =
      Text.withoutLastFeed text
  /-- Without one it is the rows. -/
  unseparated : (¬ ∃ number, Text.IsLine text number separator) →
    source.legend = [] ∧ Text.joined source.rows = Text.withoutLastFeed text

theorem numberFrom_number (first : Nat) (lines : List (List Char)) :
    (numberFrom first lines).map NumberedLine.number = List.range' first lines.length := by
  induction lines generalizing first with
  | nil => rfl
  | cons text more ih =>
      rw [numberFrom_cons, List.map_cons, ih, List.length_cons, List.range'_succ]

theorem isLineText_separator : Text.IsLineText separator :=
  ⟨by decide, by decide⟩

/-- Written rows and legend texts do not start with a mark if the first row does not. -/
theorem head?_ended {ending : Text.Ending} {rows texts : List (List Char)}
    (h : ∀ row, rows.head? = some row → row.head? ≠ some Text.byteOrderMark) :
    (Text.ended ending (rows ++ separator :: texts)).head? ≠ some Text.byteOrderMark := by
  cases rows with
  | nil =>
      rw [List.nil_append, Text.ended, List.flatMap_cons]
      simp [separator, Text.byteOrderMark]
  | cons row more =>
      have hrow := h row rfl
      rw [List.cons_append, Text.ended, List.flatMap_cons]
      cases row with
      | nil => exact Text.head?_chars_append _
      | cons c others => exact hrow

/-- Rows and legend texts that were written are read back. -/
theorem readBack_ended {ending : Text.Ending} {rows texts : List (List Char)}
    (hlines : ∀ line ∈ rows ++ texts, Text.IsLineText line) (hrows : separator ∉ rows)
    (hmark : ∀ row, rows.head? = some row → row.head? ≠ some Text.byteOrderMark) :
    (ofText (Text.ended ending (rows ++ separator :: texts))).ReadBack rows texts := by
  have hwritten : ∀ line ∈ rows ++ separator :: texts, Text.IsLineText line := by
    intro line hline
    rw [List.mem_append, List.mem_cons] at hline
    rcases hline with hrow | rfl | htext
    · exact hlines line (List.mem_append_left _ hrow)
    · exact isLineText_separator
    · exact hlines line (List.mem_append_right _ htext)
  rw [ofText, Text.withoutMark_of_head? (head?_ended hmark), Text.lines_ended hwritten,
    ofLines_append texts hrows]
  exact ⟨rfl, numberFrom_text _ _, numberFrom_number _ _⟩

/-- A text comes back from its sections. -/
theorem rejoins_ofText {text : List Char} (hreturn : '\r' ∉ text)
    (hmark : text.head? ≠ some Text.byteOrderMark) : (ofText text).Rejoins text := by
  have hjoined := Text.joined_lines hreturn
  have hseparator : separator ∈ Text.lines text ↔ ∃ number, Text.IsLine text number separator :=
    Text.mem_lines_iff (by decide)
  rw [ofText, Text.withoutMark_of_head? hmark]
  by_cases hmem : separator ∈ Text.lines text
  · -- The text is cut at the first separator. Any other is a legend text.
    rcases List.eq_append_cons_of_mem hmem with ⟨rows, tail, hlines, hrows⟩
    rw [hlines] at hjoined ⊢
    rw [ofLines_append tail hrows]
    refine ⟨hrows, fun _ => ?_, fun hnone => absurd (hseparator.mp hmem) hnone⟩
    rw [numberFrom_text]
    exact hjoined
  · rw [ofLines_of_notMem hmem]
    exact ⟨hmem, fun hsome => absurd (hseparator.mpr hsome) hmem, fun _ => ⟨rfl, hjoined⟩⟩

/-- Rows and legend texts that can be written are read back from either way of writing them,
    with the numbers of their lines, and a text without carriage returns comes back from its
    sections. -/
theorem sections_round_trip :
    (∀ (ending : Text.Ending) (rows texts : List (List Char)),
      (∀ line ∈ rows ++ texts, Text.IsLineText line) → separator ∉ rows →
      (∀ row, rows.head? = some row → row.head? ≠ some Text.byteOrderMark) →
      (ofText (Text.ended ending (rows ++ separator :: texts))).ReadBack rows texts) ∧
    ∀ text : List Char, '\r' ∉ text → text.head? ≠ some Text.byteOrderMark →
      (ofText text).Rejoins text :=
  ⟨fun _ _ _ hlines hrows hmark => readBack_ended hlines hrows hmark,
    fun _ hreturn hmark => rejoins_ofText hreturn hmark⟩

/-- An empty row, a carriage return inside of another, and a legend text that looks like the
    separator, written with carriage returns; and a text that ends in a separator. -/
theorem dashes_round_trip :
    (ofText "\r\nS\r#\r\n---\r\n---\r\n\r\n".toList).ReadBack [[], "S\r#".toList]
        ["---".toList, []] ∧
      Text.joined ((ofText "S\n\n---".toList).rows ++
          separator :: (ofText "S\n\n---".toList).legend.map NumberedLine.text) =
        Text.withoutLastFeed "S\n\n---".toList := by
  have hread := sections_round_trip.1 .returnFeed [[], "S\r#".toList] ["---".toList, []]
    (by
      intro line hline
      simp only [List.cons_append, List.nil_append, List.mem_cons, List.not_mem_nil,
        or_false] at hline
      rcases hline with rfl | rfl | rfl | rfl
      all_goals exact ⟨by decide, by decide⟩)
    (by decide) (by decide)
  have hrejoins := sections_round_trip.2 "S\n\n---".toList (by decide) (by decide)
  exact ⟨hread, hrejoins.separated ⟨3, .later ['S'] _ 2 _ (by decide)
    (.later [] _ 1 _ (by decide) (.first separator [] (by decide) .last))⟩⟩

end Source

end PuzzleLevel
