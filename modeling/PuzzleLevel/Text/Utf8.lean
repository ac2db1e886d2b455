/-!
# UTF-8

The characters of a sequence of bytes. A sequence is taken apart from the left
into characters and faulty parts, where a faulty part is as long as it can be
while it is the beginning of some character, and one byte otherwise. Strict
decoding allows no faulty part; lenient decoding, for showing a name that is no
text, puts the replacement character in the place of each.

A character of two to four bytes is announced by its first byte. The ranges that
the second byte is held to keep out longer forms of short characters, halves of
surrogate pairs, and numbers beyond the last code point.

## Main definitions

* `Text.scan`: The characters and faulty parts of a sequence of bytes.
* `Text.decode?`: Its characters, if it is text.
* `Text.decodeLossy`: Its characters, with replacements.
-/

namespace PuzzleLevel

namespace Text

/-- Whether a byte may continue a character. -/
def isTail (b : UInt8) : Bool :=
  0x80 ≤ b && b ≤ 0xBF

/-- Whether the second byte of a character of three bytes fits its first. -/
def isSecondOfThree (a b : UInt8) : Bool :=
  isTail b && (a ≠ 0xE0 || 0xA0 ≤ b) && (a ≠ 0xED || b ≤ 0x9F)

/-- Whether the second byte of a character of four bytes fits its first. -/
def isSecondOfFour (a b : UInt8) : Bool :=
  isTail b && (a ≠ 0xF0 || 0x90 ≤ b) && (a ≠ 0xF4 || b ≤ 0x8F)

/-- The low six bits of a byte that continues a character. -/
def tailBits (b : UInt8) : Nat :=
  b.toNat % 0x40

/-- The character of two bytes that starts with the given byte, and the number of
    further bytes it takes, or takes up when it is faulty. -/
def ofTwo (a : UInt8) : List UInt8 → Option Char × Nat
  | b :: _ =>
    if isTail b then (some (Char.ofNat (a.toNat % 0x20 * 0x40 + tailBits b)), 1) else (none, 0)
  | [] => (none, 0)

/-- The character of three bytes that starts with the given byte. -/
def ofThree (a : UInt8) : List UInt8 → Option Char × Nat
  | b :: c :: _ =>
    if !isSecondOfThree a b then (none, 0)
    else if !isTail c then (none, 1)
    else (some (Char.ofNat ((a.toNat % 0x10 * 0x40 + tailBits b) * 0x40 + tailBits c)), 2)
  | [b] => (none, if isSecondOfThree a b then 1 else 0)
  | [] => (none, 0)

/-- The character of four bytes that starts with the given byte. -/
def ofFour (a : UInt8) : List UInt8 → Option Char × Nat
  | b :: c :: d :: _ =>
    if !isSecondOfFour a b then (none, 0)
    else if !isTail c then (none, 1)
    else if !isTail d then (none, 2)
    else
      (some (Char.ofNat (((a.toNat % 0x08 * 0x40 + tailBits b) * 0x40 + tailBits c) * 0x40 +
        tailBits d)), 3)
  | [b, c] => (none, if !isSecondOfFour a b then 0 else if isTail c then 2 else 1)
  | [b] => (none, if isSecondOfFour a b then 1 else 0)
  | [] => (none, 0)

/-- The character that starts with the given byte, and the number of further
    bytes it takes, or takes up when it is faulty. -/
def leading (a : UInt8) (rest : List UInt8) : Option Char × Nat :=
  if a < 0x80 then (some (Char.ofNat a.toNat), 0)
  else if 0xC2 ≤ a && a ≤ 0xDF then ofTwo a rest
  else if 0xE0 ≤ a && a ≤ 0xEF then ofThree a rest
  else if 0xF0 ≤ a && a ≤ 0xF4 then ofFour a rest
  else (none, 0)

/-- The characters and faulty parts of a sequence of bytes, behind the first
    `taken` bytes, which belong to what was found before. -/
def scanAfter : (taken : Nat) → List UInt8 → List (Option Char)
  | _, [] => []
  | taken + 1, _ :: rest => scanAfter taken rest
  | 0, a :: rest => (leading a rest).1 :: scanAfter (leading a rest).2 rest

/-- The characters and faulty parts of a sequence of bytes. -/
def scan (bytes : List UInt8) : List (Option Char) :=
  scanAfter 0 bytes

/-- The characters of a sequence of bytes, if it is text. -/
def decode? (bytes : List UInt8) : Option (List Char) :=
  (scan bytes).mapM id

/-- The character that stands for a faulty part. -/
def replacement : Char := '\uFFFD'

/-- The characters of a sequence of bytes, with replacements for what is no
    text. -/
def decodeLossy (bytes : List UInt8) : List Char :=
  (scan bytes).map fun c => c.getD replacement

end Text

end PuzzleLevel
