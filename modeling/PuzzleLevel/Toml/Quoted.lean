import PuzzleLevel.Text.Digit
import PuzzleLevel.Text.Reading
import PuzzleLevel.Toml.Basic

/-!
# Strings in TOML

A string stands between quotes on one line, or between threefold quotes over any
number of lines. Between double quotes a backslash escapes; between single quotes
nothing does. In a string over several lines a line end right after the opening
quotes does not count, line ends are line feeds however they were written, and a
backslash at the end of a line swallows all blanks and line ends up to the next
visible character. Up to two quotes may stand directly before the closing ones.

## Main definitions

* `Toml.readString`: Reads any string.
* `Toml.readLineString`: Reads a string on one line.
-/

namespace PuzzleLevel

namespace Toml

/-- Whether a character is a blank inside a line. -/
def isSpace (c : Char) : Bool := c = ' ' || c = '\t'

/-- Whether a character may stand in a comment or a literal string, its quotes
    apart. -/
def isVisible (c : Char) : Bool :=
  c = '\t' || (0x20 ≤ c.toNat && c.toNat ≠ 0x7F)

/-- The character with a number given by hexadecimal digits. -/
def numbered? (digits : List Char) : Option Char :=
  if digits.all Text.isHexDigit && (Text.numberOf 16 digits).isValidChar then
    some (Char.ofNat (Text.numberOf 16 digits))
  else none

/-- The character that an escape of two characters names. -/
def shortEscape? (c : Char) : Option Char :=
  if c = '"' ∨ c = '\\' then some c
  else if c = 'b' then some '\x08'
  else if c = 'f' then some '\x0C'
  else if c = 'n' then some '\n'
  else if c = 'r' then some '\r'
  else if c = 't' then some '\t'
  else none

/-- Reads the character whose number stands in front of a text in `count`
    hexadecimal digits. -/
def readNumbered (count : Nat) (s : List Char) :
    Option (Char × { rest : List Char // rest.length ≤ s.length }) :=
  let digits := s.take count
  if digits.length = count then
    (numbered? digits).map fun c => (c, ⟨s.drop count, by simp⟩)
  else none

/-- Reads what follows a backslash. -/
def readEscape : (s : List Char) → Text.Reading Char s
  | [] => none
  | c :: rest =>
    if c = 'u' ∨ c = 'U' then
      (readNumbered (if c = 'u' then 4 else 8) rest).map fun (d, ⟨after, h⟩) =>
        (d, ⟨after, Nat.lt_succ_of_le h⟩)
    else (shortEscape? c).map fun d => (d, ⟨rest, Text.length_lt_cons c rest⟩)

/-- Reads a string on one line whose opening double quote was read before. -/
def readBasic (s : List Char) : Text.Reading (List Char) s :=
  match s with
  | [] => none
  | '"' :: rest => some ([], ⟨rest, Nat.lt_succ_self _⟩)
  | '\\' :: rest =>
    match readEscape rest with
    | none => none
    | some (c, ⟨more, h⟩) =>
      match readBasic more with
      | none => none
      | some (cs, ⟨after, h₁⟩) =>
        some (c :: cs, ⟨after, Text.length_lt_cons_of_lt (Nat.lt_trans h₁ h)⟩)
  | c :: rest =>
    if isVisible c then
      match readBasic rest with
      | none => none
      | some (cs, ⟨after, h⟩) => some (c :: cs, ⟨after, Text.length_lt_cons_of_lt h⟩)
    else none
termination_by s.length
decreasing_by all_goals simp; try omega

/-- Reads a string on one line whose opening single quote was read before. -/
def readLiteral : (s : List Char) → Text.Reading (List Char) s
  | [] => none
  | '\'' :: rest => some ([], ⟨rest, Nat.lt_succ_self _⟩)
  | c :: rest =>
    if isVisible c then
      (readLiteral rest).map fun (cs, ⟨after, h⟩) => (c :: cs, ⟨after, Nat.lt_succ_of_lt h⟩)
    else none

/-- The text after the blanks and line ends in front. -/
def skipLayout : List Char → List Char
  | '\r' :: '\n' :: rest => skipLayout rest
  | c :: rest => if isSpace c || c = '\n' then skipLayout rest else c :: rest
  | [] => []

/-- Skipping blanks and line ends never lengthens a text. -/
theorem skipLayout_length_le (s : List Char) : (skipLayout s).length ≤ s.length := by
  fun_induction skipLayout s <;> simp_all <;> omega

/-- Whether a line ends after the blanks in front of a text. -/
def isLineEnd (s : List Char) : Bool :=
  match s.dropWhile isSpace with
  | '\n' :: _ => true
  | '\r' :: '\n' :: _ => true
  | _ => false

/-- Reads a string over several lines whose opening double quotes were read
    before. -/
def readBasicLines (s : List Char) : Text.Reading (List Char) s :=
  match s with
  | [] => none
  -- Of five quotes the first two belong to the text, of four the first.
  | '"' :: '"' :: '"' :: '"' :: '"' :: rest => some (['"', '"'], ⟨rest, by simp; omega⟩)
  | '"' :: '"' :: '"' :: '"' :: rest => some (['"'], ⟨rest, by simp; omega⟩)
  | '"' :: '"' :: '"' :: rest => some ([], ⟨rest, by simp; omega⟩)
  | '\\' :: rest =>
    -- At the end of its line, a backslash joins it with the next visible character.
    if isLineEnd rest then
      match readBasicLines (skipLayout rest) with
      | none => none
      | some (cs, ⟨after, h⟩) =>
        some (cs, ⟨after, by have := skipLayout_length_le rest; simp; omega⟩)
    else
      match readEscape rest with
      | none => none
      | some (c, ⟨more, h⟩) =>
        match readBasicLines more with
        | none => none
        | some (cs, ⟨after, h₁⟩) => some (c :: cs, ⟨after, by simp; omega⟩)
  | '\r' :: '\n' :: rest =>
    match readBasicLines rest with
    | none => none
    | some (cs, ⟨after, h⟩) => some ('\n' :: cs, ⟨after, by simp; omega⟩)
  | c :: rest =>
    if isVisible c || c = '\n' then
      match readBasicLines rest with
      | none => none
      | some (cs, ⟨after, h⟩) => some (c :: cs, ⟨after, by simp; omega⟩)
    else none
termination_by s.length
decreasing_by
  all_goals simp
  all_goals (try have := skipLayout_length_le rest)
  all_goals omega

/-- Reads a string over several lines whose opening single quotes were read
    before. -/
def readLiteralLines (s : List Char) : Text.Reading (List Char) s :=
  match s with
  | [] => none
  | '\'' :: '\'' :: '\'' :: '\'' :: '\'' :: rest => some (['\'', '\''], ⟨rest, by simp; omega⟩)
  | '\'' :: '\'' :: '\'' :: '\'' :: rest => some (['\''], ⟨rest, by simp; omega⟩)
  | '\'' :: '\'' :: '\'' :: rest => some ([], ⟨rest, by simp; omega⟩)
  | '\r' :: '\n' :: rest =>
    match readLiteralLines rest with
    | none => none
    | some (cs, ⟨after, h⟩) => some ('\n' :: cs, ⟨after, by simp; omega⟩)
  | c :: rest =>
    if isVisible c || c = '\n' then
      match readLiteralLines rest with
      | none => none
      | some (cs, ⟨after, h⟩) => some (c :: cs, ⟨after, by simp; omega⟩)
    else none
termination_by s.length

/-- The text after a line end in front. -/
def afterLineEnd : List Char → List Char
  | '\n' :: rest => rest
  | '\r' :: '\n' :: rest => rest
  | s => s

/-- Taking a line end away never lengthens a text. -/
theorem afterLineEnd_length_le (s : List Char) : (afterLineEnd s).length ≤ s.length := by
  fun_cases afterLineEnd s
  · simp
  · simp; omega
  · simp

/-- Reads a string on one line. -/
def readLineString (s : List Char) : Text.Reading (List Char) s :=
  match s with
  | '"' :: rest => (readBasic rest).map fun (cs, ⟨after, h⟩) => (cs, ⟨after, Nat.lt_succ_of_lt h⟩)
  | '\'' :: rest =>
    (readLiteral rest).map fun (cs, ⟨after, h⟩) => (cs, ⟨after, Nat.lt_succ_of_lt h⟩)
  | _ => none

/-- Reads any string. -/
def readString (s : List Char) : Text.Reading (List Char) s :=
  match s with
  | '"' :: '"' :: '"' :: rest =>
    (readBasicLines (afterLineEnd rest)).map fun (cs, ⟨after, h⟩) =>
      (cs, ⟨after, by have := afterLineEnd_length_le rest; simp; omega⟩)
  | '\'' :: '\'' :: '\'' :: rest =>
    (readLiteralLines (afterLineEnd rest)).map fun (cs, ⟨after, h⟩) =>
      (cs, ⟨after, by have := afterLineEnd_length_le rest; simp; omega⟩)
  | s => readLineString s

end Toml

end PuzzleLevel
