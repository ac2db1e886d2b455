import PuzzleLevel.Json.Basic
import PuzzleLevel.Text.Digit
import PuzzleLevel.Text.Reading

/-!
# Reading JSON

The reader takes a text apart as the standard grammar has it, with one value and
blanks around it and nothing else. It does not judge what a value is for: a
number keeps its spelling, and an escape that names half of a surrogate pair
spoils only the string it stands in.

A number is taken as far as characters of numbers go and then judged as a whole.
This refuses the same texts as a reader that stops at the first character that
does not fit, because no character of a number may follow a value.

An escape with four hexadecimal digits is a UTF-16 unit. Two units in a row that
form a pair are one character, so a string is first read as a list of pieces and
the pieces are joined afterwards.

## Main definitions

* `Json.Piece`, `Json.joinPieces?`: The pieces of a string and their characters.
* `Json.isNumber`: Whether a literal is a number.
* `Json.readValue`: Reads one value from the front of a text.
* `Json.read?`: Reads a whole text.
-/

namespace PuzzleLevel

namespace Json

/-- Whether a character may stand between the parts of a document. -/
def isSpace (c : Char) : Bool :=
  c = ' ' || c = '\t' || c = '\n' || c = '\r'

/-- A part of a string as it is written: a character, or a UTF-16 unit given by
    a numbered escape. -/
inductive Piece where
  | char (c : Char)
  | unit (n : Nat)
  deriving DecidableEq, Repr

/-- The unit that four hexadecimal digits name. -/
def unit? (a b c d : Char) : Option Nat :=
  match Text.hexValue? a, Text.hexValue? b, Text.hexValue? c, Text.hexValue? d with
  | some a, some b, some c, some d => some (((a * 16 + b) * 16 + c) * 16 + d)
  | _, _, _, _ => none

/-- The character that an escape of two characters names. -/
def shortEscape? (c : Char) : Option Char :=
  if c = '"' ∨ c = '\\' ∨ c = '/' then some c
  else if c = 'b' then some '\x08'
  else if c = 'f' then some '\x0C'
  else if c = 'n' then some '\n'
  else if c = 'r' then some '\r'
  else if c = 't' then some '\t'
  else none

/-- The pieces of a string and the text after its closing quote. A control
    character may not stand in a string as it is. -/
def readPieces? : List Char → Option (List Piece × List Char)
  | [] => none
  | '"' :: rest => some ([], rest)
  | '\\' :: 'u' :: a :: b :: c :: d :: rest =>
    match unit? a b c d, readPieces? rest with
    | some n, some (pieces, after) => some (.unit n :: pieces, after)
    | _, _ => none
  | '\\' :: c :: rest =>
    match shortEscape? c, readPieces? rest with
    | some e, some (pieces, after) => some (.char e :: pieces, after)
    | _, _ => none
  | c :: rest =>
    if c.toNat < 0x20 then none
    else
      match readPieces? rest with
      | some (pieces, after) => some (.char c :: pieces, after)
      | none => none

/-- What stands after a string is shorter than the text the string was read
    from. -/
theorem readPieces?_length {s rest : List Char} {pieces : List Piece}
    (h : readPieces? s = some (pieces, rest)) : rest.length < s.length := by
  fun_induction readPieces? s generalizing pieces rest with
  | case1 => simp at h
  | case2 rest' => simp at h; simp [h.2]
  | case3 a b c d rest' n p after hr hu ih =>
    simp only [Option.some.injEq, Prod.mk.injEq] at h
    have := ih hr
    simp only [List.length_cons, ← h.2]
    omega
  | case4 => simp at h
  | case5 c rest' hc e p after hr hs ih =>
    simp only [Option.some.injEq, Prod.mk.injEq] at h
    have := ih hr
    simp only [List.length_cons, ← h.2]
    omega
  | case6 => simp at h
  | case7 => simp at h
  | case8 c rest' hq hu hs hc p after hr ih =>
    simp only [Option.some.injEq, Prod.mk.injEq] at h
    have := ih hr
    simp only [List.length_cons, ← h.2]
    omega
  | case9 => simp at h

/-- Whether a unit is the first half of a surrogate pair. -/
def isHighHalf (n : Nat) : Bool := 0xD800 ≤ n && n < 0xDC00

/-- Whether a unit is the second half of a surrogate pair. -/
def isLowHalf (n : Nat) : Bool := 0xDC00 ≤ n && n < 0xE000

/-- The characters of a string, unless half of a surrogate pair stands alone in
    it. -/
def joinPieces? : List Piece → Option (List Char)
  | [] => some []
  | .char c :: more => (joinPieces? more).map (c :: ·)
  | .unit high :: .unit low :: more =>
    -- Two halves that belong together are one character beyond the first plane.
    if isHighHalf high && isLowHalf low then
      (joinPieces? more).map
        (Char.ofNat (0x10000 + (high - 0xD800) * 0x400 + (low - 0xDC00)) :: ·)
    else if isHighHalf high || isLowHalf high then none
    else (joinPieces? (.unit low :: more)).map (Char.ofNat high :: ·)
  | .unit n :: more =>
    if isHighHalf n || isLowHalf n then none
    else (joinPieces? more).map (Char.ofNat n :: ·)

def afterSign : List Char → List Char
  | '+' :: rest => rest
  | '-' :: rest => rest
  | s => s

/-- Whether a text is nothing or an exponent. -/
def isExponent : List Char → Bool
  | [] => true
  | c :: rest =>
    (c = 'e' || c = 'E') && !(afterSign rest).isEmpty && (afterSign rest).all Char.isDigit

/-- Whether a text may follow the digits in front of the point of a number. -/
def isFraction : List Char → Bool
  | '.' :: rest =>
    !(rest.takeWhile Char.isDigit).isEmpty && isExponent (rest.dropWhile Char.isDigit)
  | s => isExponent s

/-- The literal of a number without its sign. -/
def withoutMinus : List Char → List Char
  | '-' :: rest => rest
  | s => s

/-- Whether a literal is a number: digits without a needless zero in front, then
    possibly a fraction and an exponent. -/
def isNumber (literal : List Char) : Bool :=
  let s := withoutMinus literal
  let whole := s.takeWhile Char.isDigit
  !whole.isEmpty && (whole.length = 1 || whole.head? ≠ some '0') &&
    isFraction (s.dropWhile Char.isDigit)

/-- Whether a character may stand in a number. -/
def isNumberChar (c : Char) : Bool :=
  c.isDigit || c = '-' || c = '+' || c = '.' || c = 'e' || c = 'E'

/-- The first character that is no blank, with what stands after it. -/
def next? (s : List Char) : Text.Reading Char s :=
  Text.next? isSpace s

/-- Reads the rest of a fixed word whose first character was read before. -/
def readWord {s : List Char} (value : Json) :
    (word : List Char) → (rest : List Char) → rest.length < s.length → Text.Reading Json s
  | [], rest, h => some (value, ⟨rest, h⟩)
  | c :: word, d :: rest, h =>
    if c = d then readWord value word rest (Nat.lt_trans (Nat.lt_succ_self _) h) else none
  | _ :: _, [], _ => none

/-- Reads a string whose opening quote was read before. -/
def readString (s : List Char) : Text.Reading (Option String) s :=
  match h : readPieces? s with
  | some (pieces, rest) =>
    some ((joinPieces? pieces).map String.ofList, ⟨rest, readPieces?_length h⟩)
  | none => none

/-- Reads a number that begins with a given character. -/
def readNumber (first : Char) (s : List Char) :
    Option (Json × { rest : List Char // rest.length ≤ s.length }) :=
  let literal := first :: s.takeWhile isNumberChar
  if isNumber literal then
    some (.number literal, ⟨s.dropWhile isNumberChar, (List.dropWhile_sublist _).length_le⟩)
  else none

mutual

/-- Reads one value. -/
def readValue (s : List Char) : Text.Reading Json s :=
  match next? s with
  | none => none
  | some ('n', ⟨rest, h⟩) => readWord .null ['u', 'l', 'l'] rest h
  | some ('t', ⟨rest, h⟩) => readWord (.bool true) ['r', 'u', 'e'] rest h
  | some ('f', ⟨rest, h⟩) => readWord (.bool false) ['a', 'l', 's', 'e'] rest h
  | some ('"', ⟨rest, h⟩) =>
    match readString rest with
    | none => none
    | some (chars, ⟨after, h₁⟩) => some (.string chars, ⟨after, Nat.lt_trans h₁ h⟩)
  | some ('[', ⟨rest, h⟩) =>
    -- Only a list without items may close at once: no comma stands before a bracket.
    match next? rest with
    | some (']', ⟨after, h₁⟩) => some (.array [], ⟨after, by omega⟩)
    | _ =>
      match readItems rest with
      | none => none
      | some (items, ⟨after, h₁⟩) => some (.array items, ⟨after, by omega⟩)
  | some ('\x7b', ⟨rest, h⟩) =>
    match next? rest with
    | some ('\x7d', ⟨after, h₁⟩) => some (.object [], ⟨after, by omega⟩)
    | _ =>
      match readMembers rest with
      | none => none
      | some (members, ⟨after, h₁⟩) => some (.object members, ⟨after, by omega⟩)
  | some (c, ⟨rest, h⟩) =>
    -- Whether the literal is well formed is judged once it is taken.
    if c.isDigit || c = '-' then
      match readNumber c rest with
      | none => none
      | some (value, ⟨after, h₁⟩) => some (value, ⟨after, by omega⟩)
    else none
termination_by 2 * s.length

/-- Reads the items of a list, of which there is at least one, up to its closing
    bracket. -/
def readItems (s : List Char) : Text.Reading (List Json) s :=
  match readValue s with
  | none => none
  | some (item, ⟨rest, h⟩) =>
    match next? rest with
    | some (']', ⟨after, h₁⟩) => some ([item], ⟨after, by omega⟩)
    | some (',', ⟨more, h₁⟩) =>
      match readItems more with
      | none => none
      | some (items, ⟨after, h₂⟩) => some (item :: items, ⟨after, by omega⟩)
    | _ => none
termination_by 2 * s.length + 1

/-- Reads the members of an object, of which there is at least one, up to its
    closing brace. -/
def readMembers (s : List Char) : Text.Reading (List (Option String × Json)) s :=
  match next? s with
  | some ('"', ⟨start, h⟩) =>
    match readString start with
    | none => none
    | some (key, ⟨afterKey, h₁⟩) =>
      match next? afterKey with
      | some (':', ⟨body, h₂⟩) =>
        match readValue body with
        | none => none
        | some (value, ⟨rest, h₃⟩) =>
          match next? rest with
          | some ('\x7d', ⟨after, h₄⟩) => some ([(key, value)], ⟨after, by omega⟩)
          | some (',', ⟨more, h₄⟩) =>
            match readMembers more with
            | none => none
            | some (members, ⟨after, h₅⟩) =>
              some ((key, value) :: members, ⟨after, by omega⟩)
          | _ => none
      | _ => none
  | _ => none
termination_by 2 * s.length + 1

end

/-- The document that a text is, unless something else than one value stands in
    it. -/
def read? (s : List Char) : Option Json :=
  match readValue s with
  | none => none
  | some (value, ⟨rest, _⟩) => if (Text.skip isSpace rest).isEmpty then some value else none

end Json

end PuzzleLevel
