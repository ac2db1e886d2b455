import PuzzleLevel.Binary64
import PuzzleLevel.Text.Digit
import PuzzleLevel.Toml.Basic

/-!
# Numbers, Truth Values and Times in TOML

Every value that is neither quoted nor bracketed is one run of characters, so it
can be taken from the text as a whole and judged afterwards. A date and a time
with a blank between them are two runs; whoever takes them joins them first.

Underscores may stand between two digits of a number. A decimal number has no
needless zero in front. Integers have 64 bits, and a fraction must not be so
large that it becomes infinite, though a negative one may.

## Main definitions

* `Toml.scalar?`: The value that a run of characters is.
* `Toml.isDate`: Whether a run of characters is a date.
-/

namespace PuzzleLevel

namespace Toml

/-- The digits of a number in a base, if the characters are that: at least one,
    and single underscores only between two of them. -/
def digits? (isDigit : Char → Bool) : List Char → Option (List Char)
  | [] => none
  | [c] => if isDigit c then some [c] else none
  | c :: '_' :: rest => if isDigit c then (digits? isDigit rest).map (c :: ·) else none
  | c :: rest => if isDigit c then (digits? isDigit rest).map (c :: ·) else none

/-- The integer of 64 bits with a value. -/
def integer64? (value : Int) : Option Toml :=
  if -(Nat.pow 2 63 : Int) ≤ value ∧ value < (Nat.pow 2 63 : Int) then some (integer value) else none

/-- Whether digits are written without a needless zero in front. -/
def isTrimmed (digits : List Char) : Bool :=
  digits.length = 1 || digits.head? ≠ some '0'

/-- The sign in front of a number, and what follows it. -/
def signed : List Char → Bool × List Char
  | '-' :: rest => (true, rest)
  | '+' :: rest => (false, rest)
  | s => (false, s)

/-- The integer that a run of characters is. Only a decimal number may have a
    sign. -/
def integer? : List Char → Option Toml
  | '0' :: 'x' :: rest => (digits? Text.isHexDigit rest).bind fun ds => integer64? (Text.numberOf 16 ds)
  | '0' :: 'o' :: rest =>
    (digits? (fun c => '0' ≤ c && c ≤ '7') rest).bind fun ds => integer64? (Text.numberOf 8 ds)
  | '0' :: 'b' :: rest =>
    (digits? (fun c => c = '0' || c = '1') rest).bind fun ds => integer64? (Text.numberOf 2 ds)
  | s =>
    let (negative, unsigned) := signed s
    (digits? Char.isDigit unsigned).bind fun ds =>
      if isTrimmed ds then
        integer64? (if negative then -(Text.numberOf 10 ds : Int) else Text.numberOf 10 ds)
      else none

/-- Whether the number with the given digits and power of ten is too large for a
    floating-point number of 64 bits. -/
def isInfinite (digits : List Char) (exponent : Int) : Bool :=
  let value := Text.numberOf 10 digits
  if value = 0 then false
  else if exponent < 0 then
    digits.length > 300 && exponent.natAbs < digits.length &&
      decide (infinityBound * Nat.pow 10 exponent.natAbs ≤ value)
  else exponent > 400 || decide (infinityBound ≤ value * Nat.pow 10 exponent.toNat)

/-- The digits and the sign of an exponent. -/
def exponent? : List Char → Option Int
  | [] => some 0
  | c :: rest =>
    if c = 'e' ∨ c = 'E' then
      let (negative, unsigned) := signed rest
      (digits? Char.isDigit unsigned).map fun ds =>
        if negative then -(Text.numberOf 10 ds : Int) else Text.numberOf 10 ds
    else none

/-- Whether a character begins an exponent. -/
def isExponentMark (c : Char) : Bool := c = 'e' || c = 'E'

/-- The number with a fraction or an exponent that a run of characters is. -/
def float? (s : List Char) : Option Toml :=
  let (negative, unsigned) := signed s
  -- The two numbers that are words may have a sign like any other.
  if unsigned = ['i', 'n', 'f'] ∨ unsigned = ['n', 'a', 'n'] then some (float s)
  else
    let mantissa := unsigned.takeWhile fun c => !isExponentMark c
    let power := unsigned.dropWhile fun c => !isExponentMark c
    let whole := mantissa.takeWhile (· ≠ '.')
    let point := mantissa.dropWhile (· ≠ '.')
    -- Without a point or an exponent it would be an integer.
    if point.isEmpty && power.isEmpty then none
    else
      match digits? Char.isDigit whole,
        if point.isEmpty then some [] else digits? Char.isDigit (point.drop 1), exponent? power with
      | some ds, some fraction, some exponent =>
        if isTrimmed ds && (negative || !isInfinite (ds ++ fraction) (exponent - fraction.length))
        then some (float s) else none
      | _, _, _ => none

/-- The number that exactly `count` digits in front of a text stand for, and what
    follows them. -/
def fixedDigits? (count : Nat) (s : List Char) : Option (Nat × List Char) :=
  let ds := s.take count
  if ds.length = count && ds.all Char.isDigit then some (Text.numberOf 10 ds, s.drop count) else none

/-- The number of days of a month. -/
def daysOf (year month : Nat) : Nat :=
  if month = 2 then
    if year % 4 = 0 ∧ (year % 100 ≠ 0 ∨ year % 400 = 0) then 29 else 28
  else if month = 4 ∨ month = 6 ∨ month = 9 ∨ month = 11 then 30
  else 31

/-- What follows a date in front of a text. -/
def afterDate? (s : List Char) : Option (List Char) :=
  match fixedDigits? 4 s with
  | some (year, '-' :: s) =>
    match fixedDigits? 2 s with
    | some (month, '-' :: s) =>
      match fixedDigits? 2 s with
      | some (day, rest) =>
        if 1 ≤ month ∧ month ≤ 12 ∧ 1 ≤ day ∧ day ≤ daysOf year month then some rest else none
      | none => none
    | _ => none
  | _ => none

/-- What follows an hour and a minute in front of a text. -/
def afterHourMinute? (s : List Char) : Option (List Char) :=
  match fixedDigits? 2 s with
  | some (hour, ':' :: s) =>
    match fixedDigits? 2 s with
    | some (minute, rest) => if hour ≤ 23 ∧ minute ≤ 59 then some rest else none
    | none => none
  | _ => none

/-- What follows a time of day in front of a text. A minute may have a leap
    second. -/
def afterTime? (s : List Char) : Option (List Char) :=
  match afterHourMinute? s with
  | some (':' :: s) =>
    match fixedDigits? 2 s with
    | some (second, rest) =>
      if 60 < second then none
      else
        match rest with
        | '.' :: fraction =>
          if (fraction.takeWhile Char.isDigit).isEmpty then none
          else some (fraction.dropWhile Char.isDigit)
        | rest => some rest
    | none => none
  | _ => none

/-- Whether a text is an offset from universal time, or nothing. -/
def isOffset : List Char → Bool
  | [] => true
  | ['Z'] => true
  | ['z'] => true
  | '+' :: s => afterHourMinute? s = some []
  | '-' :: s => afterHourMinute? s = some []
  | _ => false

/-- Whether a run of characters is a date. -/
def isDate (s : List Char) : Bool :=
  afterDate? s = some []

/-- Whether a run of characters is a date, a time of day, or both. -/
def isDateTime (s : List Char) : Bool :=
  match afterDate? s with
  | some [] => true
  | some (c :: s) =>
    (c = 'T' || c = 't' || c = ' ') && ((afterTime? s).map isOffset).getD false
  | none => afterTime? s = some []

/-- The value that a run of characters is. -/
def scalar? (s : List Char) : Option Toml :=
  if s = ['t', 'r', 'u', 'e'] then some (bool true)
  else if s = ['f', 'a', 'l', 's', 'e'] then some (bool false)
  else if isDateTime s then some (dateTime s)
  else
    match integer? s with
    | some value => some value
    | none => float? s

end Toml

end PuzzleLevel
