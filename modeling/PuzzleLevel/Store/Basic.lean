import PuzzleLevel.Path
import PuzzleLevel.Store.Fault
import PuzzleLevel.Text.Utf8

/-!
# Stores

A store holds directories and files, each at its location: the list of names
that leads to it from the root. The root itself is always there and is no entry.
A file holds text, or bytes that are no text; nothing else about a file matters.

A store also knows the directory that relative paths start from.

## Main definitions

* `Location`: The names on the way from the root.
* `Content`: What a file holds.
* `Store`: Entries by location.
* `Store.find?`: What stands at a location.
* `Store.put`, `Store.erase`, `Store.eraseTree`: A store with one thing changed.
* `Store.names`: The names in a directory.

## Theorems

* `find?_put_self`, `find?_put_other`: What stands where after putting.
* `find?_erase_self`, `find?_erase_other`: What stands where after erasing.
-/

namespace PuzzleLevel

/-- The names on the way from the root of a store. -/
abbrev Location := List (List Char)

/-- What a file holds. -/
inductive Content where
  | text (text : String)
  /-- Bytes that are no text. -/
  | binary (bytes : List UInt8)
  deriving DecidableEq, Repr

/-- The content that a sequence of bytes is. -/
def Content.ofBytes (bytes : List UInt8) : Content :=
  match Text.decode? bytes with
  | some chars => .text (String.ofList chars)
  | none => .binary bytes

/-- What stands at a location. -/
inductive Entry where
  | directory
  | file (content : Content)
  deriving DecidableEq, Repr

/-- Directories and files by location. -/
structure Store where
  /-- What stands where, each location once. -/
  entries : List (Location × Entry) := []
  /-- Where relative paths start. -/
  here : Location := []
  deriving DecidableEq, Repr

namespace Store

/-- The entry that a list has for a location. -/
def entryIn? (entries : List (Location × Entry)) (location : Location) : Option Entry :=
  (entries.find? fun pair => pair.1 = location).map Prod.snd

/-- What stands at a location. The root is a directory. -/
def find? (store : Store) (location : Location) : Option Entry :=
  if location = [] then some .directory else entryIn? store.entries location

def erase (store : Store) (location : Location) : Store :=
  { store with entries := store.entries.filter fun pair => pair.1 ≠ location }

/-- The store with an entry at a location, in place of what stands there. -/
def put (store : Store) (location : Location) (entry : Entry) : Store :=
  { store with
    entries := (store.entries.filter fun pair => pair.1 ≠ location) ++ [(location, entry)] }

/-- The store without what stands at a location and below it. -/
def eraseTree (store : Store) (location : Location) : Store :=
  { store with entries := store.entries.filter fun pair => !location.isPrefixOf pair.1 }

/-- Everything below a location, by the names that lead there from it. -/
def below (store : Store) (location : Location) : List (Location × Entry) :=
  store.entries.filterMap fun (place, entry) =>
    if location.isPrefixOf place && place ≠ location then some (place.drop location.length, entry)
    else none

/-- Puts a name into an ordered list of names, unless it is there. -/
def insertName (name : List Char) : List (List Char) → List (List Char)
  | [] => [name]
  | first :: more =>
    if name = first then first :: more
    else if name < first then name :: first :: more
    else first :: insertName name more

/-- The names in a directory, in the order of their characters. -/
def names (store : Store) (location : Location) : List (List Char) :=
  (store.entries.filterMap fun (place, _) =>
    if place.length = location.length + 1 && location.isPrefixOf place then place.getLast? else none).foldr
      insertName []

/-- A list of entries without a location has the same entries elsewhere. -/
theorem entryIn?_filter_other (entries : List (Location × Entry)) (location other : Location)
    (h : other ≠ location) :
    entryIn? (entries.filter fun pair => pair.1 ≠ location) other = entryIn? entries other := by
  induction entries with
  | nil => rfl
  | cons pair more ih =>
    simp only [entryIn?] at ih ⊢
    by_cases hpair : pair.1 = location
    · have hother : ¬pair.1 = other := fun e => h (e ▸ hpair)
      simp [hpair, Ne.symm h] at ih ⊢
      exact ih
    · by_cases hother : pair.1 = other
      · simp [hother, h]
      · simp [hpair, hother] at ih ⊢
        exact ih

/-- After putting an entry at a location other than the root, it stands there. -/
theorem find?_put_self (store : Store) (location : Location) (entry : Entry)
    (h : location ≠ []) : (store.put location entry).find? location = some entry := by
  have hnone : (store.entries.filter fun pair => pair.1 ≠ location).find?
      (fun pair => decide (pair.1 = location)) = none := by
    simp [List.find?_eq_none]
  simp only [find?, if_neg h, put, entryIn?, List.find?_append, hnone]
  simp

/-- Putting an entry changes nothing elsewhere. -/
theorem find?_put_other (store : Store) (location other : Location) (entry : Entry)
    (h : other ≠ location) : (store.put location entry).find? other = store.find? other := by
  by_cases hroot : other = []
  · simp only [find?, if_pos hroot]
  · simp only [find?, if_neg hroot, put]
    rw [← entryIn?_filter_other store.entries location other h]
    simp [entryIn?, List.find?_append, Ne.symm h]

/-- After erasing a location other than the root, nothing stands there. -/
theorem find?_erase_self (store : Store) (location : Location) (h : location ≠ []) :
    (store.erase location).find? location = none := by
  simp only [find?, if_neg h, erase, entryIn?]
  simp [List.find?_eq_none]

/-- Erasing a location changes nothing elsewhere. -/
theorem find?_erase_other (store : Store) (location other : Location) (h : other ≠ location) :
    (store.erase location).find? other = store.find? other := by
  by_cases hroot : other = []
  · simp only [find?, if_pos hroot]
  · simp only [find?, if_neg hroot, erase]
    exact entryIn?_filter_other store.entries location other h

end Store

end PuzzleLevel
