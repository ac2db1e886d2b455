import PuzzleLevel.Text.Reading

/-!
# Blank Characters

Which characters count as white space. A legend line may be padded, a name may
be set off from its parenthesis, and a start marker must be visible; all three
ask the same question, so it is answered once, by the `White_Space` property of
Unicode, which has twenty-five members.

The property is given as ranges of code points because that is how the standard
prints it, and a table is easier to compare with the standard than a chain of
tests.

## Main definitions

* `blankRanges`: The ranges of code points with the property.
* `isBlank`: Whether a character is white space.
* `trimStart`, `trimEnd`, `trim`: A text without its outer white space.
* `nextVisible?`: The first visible character, with what stands after it.
-/

namespace PuzzleLevel

namespace Text

/-- The code points with the property `White_Space`, as closed ranges. -/
def blankRanges : List (Nat × Nat) :=
  [(0x09, 0x0D), (0x20, 0x20), (0x85, 0x85), (0xA0, 0xA0), (0x1680, 0x1680),
   (0x2000, 0x200A), (0x2028, 0x2029), (0x202F, 0x202F), (0x205F, 0x205F), (0x3000, 0x3000)]

/-- Whether a character is white space. -/
def isBlank (c : Char) : Bool :=
  blankRanges.any fun (low, high) => low ≤ c.toNat && c.toNat ≤ high

/-- A text without the white space in front. -/
def trimStart (s : List Char) : List Char :=
  skip isBlank s

/-- A text without the white space behind. -/
def trimEnd (s : List Char) : List Char :=
  (trimStart s.reverse).reverse

/-- A text without the white space around it. -/
def trim (s : List Char) : List Char :=
  trimEnd (trimStart s)

/-- The first visible character of a text and what stands after it, or nothing
    when the text is blank. -/
def nextVisible? (s : List Char) : Reading Char s :=
  next? isBlank s

end Text

end PuzzleLevel
