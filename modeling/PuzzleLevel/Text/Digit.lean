/-!
# Digits

The value of a digit in any base up to sixteen, and of a row of digits in a base.
Letters count in both cases.

## Main definitions

* `Text.hexValue?`: The value of a digit.
* `Text.numberOf`: The number that digits stand for in a base.
-/

namespace PuzzleLevel

namespace Text

/-- The value of a digit in base sixteen, if the character is one. -/
def hexValue? (c : Char) : Option Nat :=
  if c.isDigit then some (c.toNat - '0'.toNat)
  else if 'a' ≤ c ∧ c ≤ 'f' then some (c.toNat - 'a'.toNat + 10)
  else if 'A' ≤ c ∧ c ≤ 'F' then some (c.toNat - 'A'.toNat + 10)
  else none

/-- Whether a character is a digit in base sixteen. -/
def isHexDigit (c : Char) : Bool :=
  (hexValue? c).isSome

/-- The value of a digit in base sixteen, and zero for any other character. -/
def digitValue (c : Char) : Nat :=
  (hexValue? c).getD 0

/-- The number that digits stand for in a base. -/
def numberOf (base : Nat) (digits : List Char) : Nat :=
  digits.foldl (fun n c => n * base + digitValue c) 0

end Text

end PuzzleLevel
