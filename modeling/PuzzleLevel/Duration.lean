import PuzzleLevel.Binary64

/-!
# Durations as Text

A duration is a whole number of nanoseconds and is shown in two ways. In full, it
is given in the largest unit that it holds at least once, with all its decimals
and no trailing zeros. In brief, it is given in whole milliseconds below one
second, in seconds with one decimal below one minute, and in minutes and seconds
from there on.

The one decimal is rounded from the binary fraction of 53 significant bits that
is nearest to the number of seconds, because that fraction is what the number is
before it is shown. A fraction exactly between two decimals goes to the even one.

## Main definitions

* `Duration`: A number of nanoseconds.
* `Duration.text`: A duration in full.
* `briefDuration`: A number of milliseconds in brief.
-/

namespace PuzzleLevel

/-- A span of time. -/
structure Duration where
  nanoseconds : Nat := 0
  deriving DecidableEq, Repr

namespace Duration

def zero : Duration := {}

/-- A number of whole milliseconds, the rest left out. -/
def milliseconds (d : Duration) : Nat :=
  d.nanoseconds / 1000000

/-- The decimals of a fraction with the given number of places, without trailing
    zeros and with the point in front, or nothing for a whole number. -/
def decimals (places fraction : Nat) : String :=
  let digits := Nat.toDigits 10 fraction
  -- The zeros in front of a small fraction count, those at its end do not.
  let padded := List.replicate (places - digits.length) '0' ++ digits
  let kept := (padded.reverse.dropWhile (· = '0')).reverse
  if kept.isEmpty then "" else "." ++ String.ofList kept

/-- A duration in units of `10 ^ places` nanoseconds. -/
def inUnits (d : Duration) (places : Nat) (unit : String) : String :=
  let one := Nat.pow 10 places
  toString (d.nanoseconds / one) ++ decimals places (d.nanoseconds % one) ++ unit

def text (d : Duration) : String :=
  if Nat.pow 10 9 ≤ d.nanoseconds then d.inUnits 9 "s"
  else if Nat.pow 10 6 ≤ d.nanoseconds then d.inUnits 6 "ms"
  else if Nat.pow 10 3 ≤ d.nanoseconds then d.inUnits 3 "µs"
  else toString d.nanoseconds ++ "ns"

end Duration

/-- The number of tenths of a second nearest to a number of milliseconds between
    one second and one minute. The seconds are first taken to the nearest binary
    fraction of 53 significant bits. -/
def tenthsOfSeconds (milliseconds : Nat) : Nat :=
  -- The seconds have `log2 + 1` bits in front of the point; the rest go behind it.
  let bits := 52 - (milliseconds / 1000).log2
  roundedQuotient (10 * roundedQuotient (milliseconds * Nat.pow 2 bits) 1000) (Nat.pow 2 bits)

/-- A number of milliseconds in brief. -/
def briefDuration (milliseconds : Nat) : String :=
  if milliseconds < 1000 then toString milliseconds ++ "ms"
  else if milliseconds < 60000 then
    let tenths := tenthsOfSeconds milliseconds
    toString (tenths / 10) ++ "." ++ toString (tenths % 10) ++ "s"
  else
    toString (milliseconds / 60000) ++ "m " ++ toString (milliseconds % 60000 / 1000) ++ "s"

end PuzzleLevel
