/-!
# The Byte Order Mark

A mark that may stand at the very front of a file of text. It belongs to the file
and not to the text, so whoever reads the text takes it away first. Only one is
taken: a second one, or one further on, is a character like any other.

## Main definitions

* `Text.byteOrderMark`: The mark.
* `Text.withoutMark`: A text without the mark in front.
-/

namespace PuzzleLevel

namespace Text

/-- The mark that may stand in front of a text file. -/
def byteOrderMark : Char := '\uFEFF'

/-- A text without the byte order mark in front. -/
def withoutMark : List Char → List Char
  | c :: rest => if c = byteOrderMark then rest else c :: rest
  | [] => []

end Text

end PuzzleLevel
