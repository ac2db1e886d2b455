import PuzzleLevel.Binary64
import PuzzleLevel.Json.Basic
import PuzzleLevel.Text.Digit

/-!
# The Magnitude of Numbers

Some values are read in two steps: first into a tree of plain values, then from
that tree. The first step turns every number with a fraction, an exponent or too
many digits into a floating-point number of 64 bits, and refuses one that is too
large for it, even where nobody asks for the number.

The number is the product of its leading digits and a power of ten. The digits
are those that fit 64 bits; further digits in front of the point raise the power,
and further digits behind it are dropped. Both factors are rounded to the 53 bits
of a floating-point number before they are multiplied, so the test here is made
on the same two rounded factors, in exact whole numbers.

## Main definitions

* `Json.Decimal`: Leading digits and a power of ten.
* `Json.decimal`: The decimal that a literal is read as.
* `Json.isFinite`: Whether a literal is within reach of a 64-bit number.
-/

namespace PuzzleLevel

namespace Json

/-- Leading digits and a power of ten. -/
structure Decimal where
  digits : Nat
  exponent : Int
  deriving DecidableEq, Repr

/-- Takes in the digits in front of the point. Once they no longer fit, each
    further digit counts as a power of ten. -/
def takeWhole : List Char → (digits : Nat) → (full : Bool) → (exponent : Int) → Decimal
  | [], digits, _, exponent => ⟨digits, exponent⟩
  | c :: rest, digits, full, exponent =>
    let more := digits * 10 + Text.digitValue c
    if full || nat64Bound ≤ more then takeWhole rest digits true (exponent + 1)
    else takeWhole rest more false exponent

/-- Takes in the digits behind the point, up to the first that no longer fits. -/
def takeFraction : List Char → Decimal → Decimal
  | [], d => d
  | c :: rest, d =>
    let more := d.digits * 10 + Text.digitValue c
    if nat64Bound ≤ more then d else takeFraction rest ⟨more, d.exponent - 1⟩

/-- The value of an exponent with its sign. -/
def exponentValue : List Char → Int
  | '-' :: rest => -(Nat.ofDigitChars 10 rest 0 : Int)
  | '+' :: rest => Nat.ofDigitChars 10 rest 0
  | s => Nat.ofDigitChars 10 s 0

/-- The decimal that a number is read as, its sign apart. -/
def decimal (literal : List Char) : Decimal :=
  let unsigned := literal.dropWhile (· = '-')
  let whole := takeWhole (unsigned.takeWhile Char.isDigit) 0 false 0
  let (fraction, power) :=
    match unsigned.dropWhile Char.isDigit with
    | '.' :: tail => (tail.takeWhile Char.isDigit, tail.dropWhile Char.isDigit)
    | tail => ([], tail)
  let d := takeFraction fraction whole
  ⟨d.digits, d.exponent + exponentValue (power.drop 1)⟩

/-- Whether a literal is within reach of a 64-bit floating-point number. -/
def isFinite (literal : List Char) : Bool :=
  let d := decimal literal
  -- No row of digits is too large on its own, and beyond 308 every other one is.
  if d.digits = 0 ∨ d.exponent < 0 then true
  else if 308 < d.exponent then false
  else roundTo53Bits d.digits * roundTo53Bits (Nat.pow 10 d.exponent.toNat) < infinityBound

end Json

end PuzzleLevel
