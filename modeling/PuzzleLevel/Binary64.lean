/-!
# Floating-Point Numbers of 64 Bits

Some numbers pass through a floating-point number of 64 bits on their way, and
what that does to them is done here with whole numbers. Such a number keeps 53
significant bits; what does not fit is rounded to the nearest, a tie going to the
even neighbour, and what is too large becomes infinite.

## Main definitions

* `roundedQuotient`: A quotient rounded to a whole number.
* `roundTo53Bits`: A whole number rounded to 53 significant bits.
* `infinityBound`: The smallest magnitude that becomes infinite.
-/

namespace PuzzleLevel

/-- A quotient rounded to a whole number, a tie going to the even neighbour. -/
def roundedQuotient (numerator denominator : Nat) : Nat :=
  let quotient := numerator / denominator
  let remainder := numerator % denominator
  if 2 * remainder < denominator ∨ (2 * remainder = denominator ∧ quotient % 2 = 0) then quotient
  else quotient + 1

/-- A whole number rounded to 53 significant bits. -/
def roundTo53Bits (n : Nat) : Nat :=
  let unit := Nat.pow 2 (n.log2 - 52)
  roundedQuotient n unit * unit

/-- The smallest magnitude that is rounded to infinity: half a unit of the last
    place beyond the greatest number. -/
def infinityBound : Nat := Nat.pow 2 1024 - Nat.pow 2 970

end PuzzleLevel
