import PuzzleLevel.Json.Basic

/-!
# Writing JSON

A document is written in one of two layouts that differ only in blanks: the
compact one has none, and the indented one puts every item and member on a line
of its own, two spaces deeper than its container, with a space after the colon
of a member. Empty containers are written without a blank in both.

A string is written with the short escapes where JSON has them, with a numbered
escape for the other control characters, and with every other character as it
is. A string without characters is written as one unpaired half of a surrogate
pair, which reads back as what it is.

## Main definitions

* `Json.Layout`: The blanks of a layout.
* `Json.chars`: A document in a layout.
* `Json.compact`, `Json.indented`: A document as text.
-/

namespace PuzzleLevel

namespace Json

/-- The blanks that a layout puts between the parts of a document. -/
structure Layout where
  /-- What stands in front of an item, and of the bracket that closes a
      container, by the number of containers around it. -/
  lineBreak : Nat → List Char
  afterColon : List Char

/-- The layout without blanks. -/
def Layout.compact : Layout :=
  ⟨fun _ => [], []⟩

/-- The layout with a line for every item. -/
def Layout.indented : Layout :=
  ⟨fun depth => '\n' :: List.replicate (2 * depth) ' ', [' ']⟩

/-- The lower-case hexadecimal digit of a number below sixteen. -/
def hexDigit (n : Nat) : Char :=
  Nat.digitChar (n % 16)

/-- A character as it is written inside a string. -/
def escaped (c : Char) : List Char :=
  if c = '"' then ['\\', '"']
  else if c = '\\' then ['\\', '\\']
  else if c = '\x08' then ['\\', 'b']
  else if c = '\x0C' then ['\\', 'f']
  else if c = '\n' then ['\\', 'n']
  else if c = '\r' then ['\\', 'r']
  else if c = '\t' then ['\\', 't']
  else if c.toNat < 0x20 then
    ['\\', 'u', '0', '0', hexDigit (c.toNat / 16), hexDigit c.toNat]
  else [c]

/-- The escape of an unpaired half of a surrogate pair. -/
def unpairedEscape : List Char := ['\\', 'u', 'd', '8', '0', '0']

/-- A string between its quotes. -/
def quoted : Option String → List Char
  | some s => '"' :: s.toList.flatMap escaped ++ ['"']
  | none => '"' :: unpairedEscape ++ ['"']

mutual

/-- A document in a layout, with `depth` containers around it. -/
def chars (layout : Layout) (depth : Nat) : Json → List Char
  | .null => ['n', 'u', 'l', 'l']
  | .bool true => ['t', 'r', 'u', 'e']
  | .bool false => ['f', 'a', 'l', 's', 'e']
  | .number literal => literal
  | .string s => quoted s
  | .array [] => ['[', ']']
  | .array (item :: more) =>
    '[' :: layout.lineBreak (depth + 1) ++ chars layout (depth + 1) item ++
      charsItems layout depth more
  | .object [] => ['\x7b', '\x7d']
  | .object ((key, value) :: more) =>
    '\x7b' :: layout.lineBreak (depth + 1) ++ quoted key ++ ':' :: layout.afterColon ++
      chars layout (depth + 1) value ++ charsMembers layout depth more

/-- The items after the first one, and the bracket that closes their list. -/
def charsItems (layout : Layout) (depth : Nat) : List Json → List Char
  | [] => layout.lineBreak depth ++ [']']
  | item :: more =>
    ',' :: layout.lineBreak (depth + 1) ++ chars layout (depth + 1) item ++
      charsItems layout depth more

/-- The members after the first one, and the brace that closes their object. -/
def charsMembers (layout : Layout) (depth : Nat) : List (Option String × Json) → List Char
  | [] => layout.lineBreak depth ++ ['\x7d']
  | (key, value) :: more =>
    ',' :: layout.lineBreak (depth + 1) ++ quoted key ++ ':' :: layout.afterColon ++
      chars layout (depth + 1) value ++ charsMembers layout depth more

end

/-- A document without blanks. -/
def compact (j : Json) : String :=
  String.ofList (j.chars .compact 0)

/-- A document with a line for every item, ending in a line feed. -/
def indented (j : Json) : String :=
  String.ofList (j.chars .indented 0 ++ ['\n'])

end Json

end PuzzleLevel
