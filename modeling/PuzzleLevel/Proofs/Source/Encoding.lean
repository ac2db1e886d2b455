import PuzzleLevel.Compile
import PuzzleLevel.Proofs.Source
import PuzzleLevel.Proofs.Text.Ending

/-!
# A Text as a File

Programs that write text files do not agree on three things: whether there is a mark in
front, what a line ends in, and whether the last line ends in anything. The sections of a
level do not depend on any of them, and a level is compiled from its sections, so neither
does anything that compiling gives: the level, the numbers of its legend lines, the warnings
or the error.

The three meet at the ends of a text. The mark stands in front of the first character and
must not become a part of the first line, also if that line is empty and its ending follows
at once. An ending behind the last line must not open another line. So it is put there only
if there is a line without one, which an empty text does not have.

The ending of the last line is chosen apart from the others. It makes a difference whether
it is added before the others are changed or afterwards, and both are covered.

## Main definitions

* `Encoding`: How a text is put into a file.
* `Encoding.encode`: The file.

## Theorems

* `lines_encode`: The lines of a text are those of any file it is put into.
* `ofText_encode`: So are its sections,
* `compile_encode`: and what it is compiled to.
-/

namespace PuzzleLevel

/-- How a text is put into a file. -/
structure Encoding where
  /-- Whether a byte order mark is put in front. -/
  mark : Bool
  /-- What every line feed becomes. -/
  ending : Text.Ending
  /-- What is put behind the last line if it has no ending. -/
  last : Option Text.Ending
  deriving DecidableEq, Repr

namespace Encoding

/-- The characters behind a text. -/
def lastChars (encoding : Encoding) (text : List Char) : List Char :=
  if text = [] ∨ text.getLast? = some '\n' then []
  else match encoding.last with
    | none => []
    | some last => last.chars

/-- The text with its endings. -/
def written (encoding : Encoding) (text : List Char) : List Char :=
  Text.withEnding encoding.ending text ++ encoding.lastChars text

/-- The file that a text is put into. -/
def encode (encoding : Encoding) (text : List Char) : List Char :=
  if encoding.mark then Text.byteOrderMark :: encoding.written text else encoding.written text

variable {encoding : Encoding} {text : List Char}

/-- Endings leave the lines as they are. -/
theorem lines_written (h : '\r' ∉ text) : Text.lines (encoding.written text) = Text.lines text := by
  rw [written, lastChars]
  by_cases hends : text = [] ∨ text.getLast? = some '\n'
  · rw [if_pos hends, List.append_nil, Text.lines_withEnding h]
  · -- There is a last line, and it has no ending yet.
    rw [if_neg hends]
    rw [not_or] at hends
    cases encoding.last with
    | none =>
        simp only [List.append_nil]
        exact Text.lines_withEnding h
    | some last => exact Text.lines_withEnding_append last h hends.1 hends.2

/-- Endings put no mark in front. -/
theorem head?_written (h : text.head? ≠ some Text.byteOrderMark) :
    (encoding.written text).head? ≠ some Text.byteOrderMark := by
  cases text with
  | nil =>
      rw [written, lastChars, if_pos (Or.inl rfl)]
      exact h
  | cons c rest =>
      by_cases hfeed : c = '\n'
      · rw [written, hfeed, Text.withEnding_feed, List.append_assoc]
        exact Text.head?_chars_append _
      · rw [written, Text.withEnding_other rest hfeed]
        exact h

/-- Behind the mark a file has the lines of its text. -/
theorem lines_encode (hreturn : '\r' ∉ text) (hmark : text.head? ≠ some Text.byteOrderMark) :
    Text.lines (Text.withoutMark (encoding.encode text)) =
      Text.lines (Text.withoutMark text) := by
  rw [Text.withoutMark_of_head? hmark, encode]
  by_cases hm : encoding.mark = true
  · rw [if_pos hm, Text.withoutMark, if_pos rfl, lines_written hreturn]
  · rw [if_neg hm, Text.withoutMark_of_head? (head?_written hmark), lines_written hreturn]

/-- A file has the sections of its text. -/
theorem ofText_encode (hreturn : '\r' ∉ text) (hmark : text.head? ≠ some Text.byteOrderMark) :
    Source.ofText (encoding.encode text) = Source.ofText text := by
  rw [Source.ofText, Source.ofText, lines_encode hreturn hmark]

/-- A file gives the level, the legend, the warnings or the error that its text gives. -/
theorem compile_encode (hreturn : '\r' ∉ text) (hmark : text.head? ≠ some Text.byteOrderMark)
    (encoding : Encoding) (options : CompileOptions) :
    compile (encoding.encode text) options = compile text options := by
  rw [compile, compile, ofText_encode hreturn hmark]

/-- With an empty first row, and a legend line at the end that earns a warning. -/
theorem ice_compile_encode :
    compile "\uFEFF\r\nS#\r\n---\r\nX: Ice\r\n".toList {} =
        compile "\nS#\n---\nX: Ice".toList {} ∧
      (compile "\nS#\n---\nX: Ice".toList {}).toOption.map Compiled.warnings =
        some [.unused 4 'X'] := by
  have hsame := @compile_encode "\nS#\n---\nX: Ice".toList (by decide) (by decide)
    ⟨true, .returnFeed, some .returnFeed⟩ {}
  exact ⟨hsame, by decide +kernel⟩

end Encoding

end PuzzleLevel
