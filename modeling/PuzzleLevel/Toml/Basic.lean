/-!
# TOML Documents

The values that a TOML document is made of. Numbers with a fraction and points in
time are kept as they were written, since nothing here calculates with them.

A table is a list of keys with their values; the reader makes sure that no key
stands in it twice.

## Main definitions

* `Toml`: A value.
* `Toml.member?`: The value of a key.
-/

namespace PuzzleLevel

/-- A value of a TOML document. -/
inductive Toml where
  | string (chars : List Char)
  | integer (value : Int)
  | float (literal : List Char)
  | bool (value : Bool)
  | dateTime (literal : List Char)
  | array (items : List Toml)
  | table (members : List (List Char × Toml))
  deriving Repr, Inhabited

namespace Toml

/-- The value of a key. -/
def member? (members : List (List Char × Toml)) (key : List Char) : Option Toml :=
  (members.find? fun member => member.1 = key).map Prod.snd

end Toml

end PuzzleLevel
