import PuzzleLevel.Text.Mark
import PuzzleLevel.Toml.Quoted
import PuzzleLevel.Toml.Scalar
import PuzzleLevel.Toml.Table

/-!
# Reading TOML

A document is a list of statements, each on its own line: a key with a value, the
header of a table, or the header of a new element of a list of tables. Blanks may
stand around every part of a statement, and a comment may end its line. Line ends
inside a statement are allowed only in lists, where comments are too.

Lists and inline tables may not be nested deeper than eighty, and neither may the
parts of a dotted key.

The members of an inline table obey the same rules as the statements of a
document, so an inline table is built as a document of its own.

## Main definitions

* `Toml.readValue`: Reads a value.
* `Toml.readStatement`: Reads a statement.
* `Toml.read?`: Reads a document.
-/

namespace PuzzleLevel

namespace Toml

/-- The number of lists and tables, or of parts of a key, that are too many
    inside each other. -/
def depthBound : Nat := 80

/-- The text after the blanks, line ends and comments in front, unless a comment
    holds what it may not. -/
def skipTrivia : (inComment : Bool) → List Char → Option (List Char)
  | _, [] => some []
  | _, '\n' :: rest => skipTrivia false rest
  | _, '\r' :: '\n' :: rest => skipTrivia false rest
  | true, c :: rest => if isVisible c then skipTrivia true rest else none
  | false, c :: rest =>
    if c = '#' then skipTrivia true rest
    else if isSpace c then skipTrivia false rest
    else some (c :: rest)

/-- Skipping blanks, line ends and comments never lengthens a text. -/
theorem skipTrivia_length_le {inComment : Bool} {s rest : List Char}
    (h : skipTrivia inComment s = some rest) : rest.length ≤ s.length := by
  fun_induction skipTrivia inComment s with
  | case1 => simp at h; simp [← h]
  | case2 _ _ ih => have := ih h; simp; omega
  | case3 _ _ ih => have := ih h; simp; omega
  | case4 _ _ _ _ _ ih => have := ih h; simp; omega
  | case5 => simp at h
  | case6 _ _ _ ih => have := ih h; simp; omega
  | case7 _ _ _ _ _ _ ih => have := ih h; simp; omega
  | case8 => simp at h; simp [← h]

/-- The first character behind blanks, with what stands after it. -/
def next? (s : List Char) : Text.Reading Char s :=
  Text.next? isSpace s

/-- The first character behind blanks, line ends and comments, with what stands
    after it. -/
def nextInList? (s : List Char) : Text.Reading Char s :=
  match h : skipTrivia false s with
  | some (c :: rest) => some (c, ⟨rest, by have := skipTrivia_length_le h; simp at this; omega⟩)
  | _ => none

/-- Whether a character may stand in a bare key. -/
def isBareKeyChar (c : Char) : Bool :=
  c.isAlphanum || c = '_' || c = '-'

/-- Reads one part of a key. -/
def readSimpleKey (s : List Char) : Text.Reading (List Char) s :=
  match s with
  | [] => none
  | c :: rest =>
    if c = '"' ∨ c = '\'' then readLineString (c :: rest)
    else if isBareKeyChar c then
      some (c :: rest.takeWhile isBareKeyChar, ⟨rest.dropWhile isBareKeyChar,
        Nat.lt_succ_of_le (List.dropWhile_sublist _).length_le⟩)
    else none

/-- Reads the parts of a key with the dots between them. -/
def readKey (s : List Char) : Text.Reading (List (List Char)) s :=
  have hs := Text.skip_length_le isSpace s
  match readSimpleKey (Text.skip isSpace s) with
  | none => none
  | some (part, ⟨rest, h⟩) =>
    match next? rest with
    | some ('.', ⟨more, h₁⟩) =>
      match readKey more with
      | none => none
      | some (parts, ⟨after, h₂⟩) => some (part :: parts, ⟨after, by omega⟩)
    | _ => some ([part], ⟨rest, by omega⟩)
termination_by s.length

/-- Reads a key that is not too long. -/
def readKeyPath (s : List Char) : Text.Reading (List (List Char)) s :=
  match readKey s with
  | some (parts, after) => if parts.length < depthBound then some (parts, after) else none
  | none => none

/-- Whether a character may stand in a value that is neither quoted nor
    bracketed. -/
def isScalarChar (c : Char) : Bool :=
  c.isAlphanum || c = '_' || c = '-' || c = '+' || c = '.' || c = ':'

/-- The run of characters in front of a text that make up one value. A date and a
    time of day may have a blank between them. -/
def scalarRun (s : List Char) : List Char :=
  let run := s.takeWhile isScalarChar
  -- Only a whole date is joined with what follows, and only with a digit behind the blank.
  if isDate run then
    match s.drop run.length with
    | ' ' :: c :: rest =>
      if c.isDigit then run ++ ' ' :: (c :: rest).takeWhile isScalarChar else run
    | _ => run
  else run

/-- Reads a value that is neither quoted nor bracketed. -/
def readScalar (s : List Char) : Text.Reading Toml s :=
  let run := scalarRun s
  if h : 0 < run.length ∧ run.length ≤ s.length then
    (scalar? run).map fun value => (value, ⟨s.drop run.length, by simp; omega⟩)
  else none

mutual

/-- Reads a value inside `depth` lists and tables. -/
def readValue (depth : Nat) (s : List Char) : Text.Reading Toml s :=
  match s with
  | '"' :: rest =>
    (readString ('"' :: rest)).map fun (chars, after) => (.string chars, after)
  | '\'' :: rest =>
    (readString ('\'' :: rest)).map fun (chars, after) => (.string chars, after)
  | '[' :: rest =>
    if depthBound ≤ depth + 1 then none
    else
      match nextInList? rest with
      | some (']', ⟨after, h⟩) => some (.array [], ⟨after, by simp; omega⟩)
      | _ =>
        match readItems (depth + 1) rest with
        | none => none
        | some (items, ⟨after, h⟩) => some (.array items, ⟨after, by simp; omega⟩)
  | '\x7b' :: rest =>
    if depthBound ≤ depth + 1 then none
    else
      match next? rest with
      | some ('\x7d', ⟨after, h⟩) => some (.table [], ⟨after, by simp; omega⟩)
      | _ =>
        match readMembers (depth + 1) rest with
        | none => none
        | some (members, ⟨after, h⟩) =>
          (Tree.inlineTable? members).map fun table => (table, ⟨after, by simp; omega⟩)
  | s => readScalar s
termination_by 3 * s.length

/-- Reads the items of a list, of which there is at least one, up to its closing
    bracket. A comma may follow the last one. -/
def readItems (depth : Nat) (s : List Char) : Text.Reading (List Toml) s :=
  match hs : skipTrivia false s with
  | none => none
  | some start =>
    have hstart := skipTrivia_length_le hs
    match readValue depth start with
    | none => none
    | some (item, ⟨rest, h⟩) =>
      match nextInList? rest with
      | some (']', ⟨after, h₁⟩) => some ([item], ⟨after, by omega⟩)
      | some (',', ⟨more, h₁⟩) =>
        -- The comma may be the last thing in the list.
        match nextInList? more with
        | some (']', ⟨after, h₂⟩) => some ([item], ⟨after, by omega⟩)
        | _ =>
          match readItems depth more with
          | none => none
          | some (items, ⟨after, h₂⟩) => some (item :: items, ⟨after, by omega⟩)
      | _ => none
termination_by 3 * s.length + 1

/-- Reads a key and its value. -/
def readMember (depth : Nat) (s : List Char) : Text.Reading (List (List Char) × Toml) s :=
  match readKeyPath s with
  | none => none
  | some (key, ⟨rest, h⟩) =>
    match next? rest with
    | some ('=', ⟨body, h₁⟩) =>
      have hbody := Text.skip_length_le isSpace body
      match readValue depth (Text.skip isSpace body) with
      | none => none
      | some (value, ⟨after, h₂⟩) => some ((key, value), ⟨after, by omega⟩)
    | _ => none
termination_by 3 * s.length + 1

/-- Reads the members of an inline table, of which there is at least one, up to
    its closing brace. -/
def readMembers (depth : Nat) (s : List Char) : Text.Reading (List (List (List Char) × Toml)) s :=
  match readMember depth s with
  | none => none
  | some (member, ⟨rest, h⟩) =>
    match next? rest with
    | some ('\x7d', ⟨after, h₁⟩) => some ([member], ⟨after, by omega⟩)
    | some (',', ⟨more, h₁⟩) =>
      -- In an inline table a comma always announces another member.
      match readMembers depth more with
      | none => none
      | some (members, ⟨after, h₂⟩) => some (member :: members, ⟨after, by omega⟩)
    | _ => none
termination_by 3 * s.length + 2

end

/-- Reads the key of a header up to the bracket that closes it. -/
def readHeaderKey (s : List Char) : Text.Reading (List (List Char)) s :=
  match readKeyPath s with
  | none => none
  | some (key, ⟨rest, h⟩) =>
    match next? rest with
    | some (']', ⟨after, h₁⟩) => some (key, ⟨after, by omega⟩)
    | _ => none

/-- Reads a statement. -/
def readStatement (s : List Char) : Text.Reading Statement s :=
  match s with
  | '[' :: '[' :: rest =>
    match readHeaderKey rest with
    | some (key, ⟨']' :: after, h⟩) =>
      some (.element key, ⟨after, by simp at h ⊢; omega⟩)
    | _ => none
  | '[' :: rest =>
    (readHeaderKey rest).map fun (key, ⟨after, h⟩) =>
      (.header key, ⟨after, Text.length_lt_cons_of_lt h⟩)
  | s => (readMember 0 s).map fun ((key, value), after) => (.assign key value, after)

/-- The text after the end of the line, unless something else than blanks and a
    comment stands in front of it. -/
def afterLine? (s : List Char) : Option { rest : List Char // rest.length ≤ s.length } :=
  have hs := Text.skip_length_le isSpace s
  match h : Text.skip isSpace s with
  | [] => some ⟨[], Nat.zero_le _⟩
  | '#' :: rest =>
    let tail := rest.dropWhile isVisible
    have htail : tail.length ≤ rest.length := (List.dropWhile_sublist _).length_le
    if tail.isEmpty || (afterLineEnd tail).length < tail.length then
      some ⟨afterLineEnd tail, by
        have := afterLineEnd_length_le tail; simp [h] at hs; omega⟩
    else none
  | rest =>
    if (afterLineEnd rest).length < rest.length then
      some ⟨afterLineEnd rest, by
        have := afterLineEnd_length_le rest; simp [h] at hs; omega⟩
    else none

/-- Reads the statements of a document. -/
def readStatements (s : List Char) : Option (List Statement) :=
  match hs : skipTrivia false s with
  | none => none
  | some [] => some []
  | some (c :: start) =>
    have _ := skipTrivia_length_le hs
    match readStatement (c :: start) with
    | none => none
    | some (statement, ⟨rest, _⟩) =>
      match afterLine? rest with
      | none => none
      | some ⟨after, _⟩ => (readStatements after).map (statement :: ·)
termination_by s.length

/-- The members of the table that a document is. -/
def read? (s : List Char) : Option (List (List Char × Toml)) :=
  (readStatements (Text.withoutMark s)).bind Tree.ofStatements?

end Toml

end PuzzleLevel
