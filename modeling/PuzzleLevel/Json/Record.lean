import PuzzleLevel.Json.Basic

/-!
# Reading Records and Choices from Documents

A value with known fields is written as an object, and read from an object in
any order of keys or from a list of its fields in their order. In an object an
unknown key is passed over with whatever it holds, but a known key may stand only
once, and every key must be a string of characters. A list may stop early if the
missing fields can be done without, but may not go on.

A value that is one of several kinds is written as the name of its kind, or as
an object with that name as its only key.

## Main definitions

* `Json.fields?`: The fields of a record by their names.
* `Json.choice?`: The name of a kind, with the value it comes with.
-/

namespace PuzzleLevel

namespace Json

/-- The value of a key that may be missing but not repeated. -/
def member? (members : List (Option String × Json)) (key : String) : Option (Option Json) :=
  match members.filter fun member => member.1 = some key with
  | [] => some none
  | [member] => some (some member.2)
  | _ => none

/-- The values of the named fields of a record, in the order of the names. -/
def fields? (names : List String) : Json → Option (List (Option Json))
  | array items =>
    -- A list that stops early leaves the last fields out.
    if items.length ≤ names.length then
      some (items.map some ++ List.replicate (names.length - items.length) none)
    else none
  | object members =>
    if members.all fun member => member.1.isSome then names.mapM (member? members) else none
  | _ => none

/-- The name of a kind with the value that stands under it, if there is one. -/
def choice? : Json → Option (String × Option Json)
  | string (some name) => some (name, none)
  | object [(some name, value)] => some (name, some value)
  | _ => none

end Json

end PuzzleLevel
