/-!
# JSON Documents

A JSON document as a tree. Two choices keep the tree faithful to a text that was
read. A number is kept as it was written, because whether it may be taken for an
integer depends on its spelling and not on its value. A string is kept as its
characters only when it has them: an escape can name half of a surrogate pair,
which is no character, and a string with such an escape is still a string that
may stand where nobody looks at it.

The members of an object are kept in their order, with repetitions.

## Main definitions

* `Json`: The tree.
* `Json.ofNat`, `Json.text`, `Json.record`: Trees for numbers, strings and
  objects with known keys.
* `Json.nat64?`, `Json.text?`: The number or string that a tree stands for.
-/

namespace PuzzleLevel

/-- A JSON document. -/
inductive Json where
  | null
  | bool (value : Bool)
  /-- A number, as it was written. -/
  | number (literal : List Char)
  /-- A string, with nothing for its characters when an escape in it names half
      of a surrogate pair. -/
  | string (chars : Option String)
  | array (items : List Json)
  /-- The members in their order, each a key and a value. -/
  | object (members : List (Option String × Json))
  deriving Repr, Inhabited

namespace Json

def ofNat (n : Nat) : Json :=
  number (Nat.toDigits 10 n)

def text (s : String) : Json :=
  string (some s)

def record (members : List (String × Json)) : Json :=
  object (members.map fun (key, value) => (some key, value))

def texts (strings : List String) : Json :=
  array (strings.map text)

/-- The smallest number that a field of 64 bits cannot hold. -/
def nat64Bound : Nat := Nat.pow 2 64

/-- The number that a literal of digits alone stands for, if it is small enough
    for a field of 64 bits. A sign, a fraction or an exponent makes a literal
    something else than a count. -/
def nat64? : Json → Option Nat
  | number literal =>
    let value := Nat.ofDigitChars 10 literal 0
    if literal.all Char.isDigit && value < nat64Bound then some value else none
  | _ => none

def text? : Json → Option String
  | string chars => chars
  | _ => none

def bool? : Json → Option Bool
  | bool value => some value
  | _ => none

def items? : Json → Option (List Json)
  | array items => some items
  | _ => none

def texts? (j : Json) : Option (List String) :=
  j.items?.bind fun items => items.mapM text?

end Json

end PuzzleLevel
