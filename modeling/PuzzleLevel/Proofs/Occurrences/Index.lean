import PuzzleLevel.Occurrences

/-!
# Reading a Map into an Index

An index of a map is the result of two loops, one over the rows and one over the cells of
a row, and what each of them adds depends on all that was added before: a position goes to
the end of a list that may be there already. What can be said of a loop that is under way
is therefore about the index that it started from.

Seen through `positions` this is simple. One step appends a position for one character and
nothing for the others, so a row appends what is found in that row, and a number of rows
appends what is found in them one after the other. The index of a whole map starts from
nothing, and what it then has for a character is what a search for this character finds.

## Theorems

* `PositionIndex.positions_record`: One step appends to one character.
* `PositionIndex.positions_addRow`: A row appends its occurrences of every character.
* `PositionIndex.positions_ofRows`: The index of a map has the occurrences of every
  character.
* `lookup_eq`: A reference is looked up among the occurrences of its character.
-/

namespace PuzzleLevel

namespace PositionIndex

/-- Nothing is recorded in the empty index. -/
@[simp] theorem positions_empty (c : Char) : positions {} c = [] :=
  rfl

/-- A recorded position comes last among those of its character, and those of another
    character stay as they are. -/
theorem positions_record (index : PositionIndex) (c d : Char) (p : Position) :
    (index.record c p).positions d = index.positions d ++ if c = d then [p] else [] := by
  rcases index with ⟨entries⟩
  simp only [record, positions]
  induction entries with
  | nil =>
      by_cases hcd : c = d
      · simp only [recordIn, List.find?, hcd, decide_true, if_true, List.nil_append]
      · simp only [recordIn, List.find?, hcd, decide_false, if_false, List.append_nil]
  | cons entry more ih =>
      rcases entry with ⟨e, places⟩
      rw [recordIn]
      by_cases hec : e = c
      · rw [if_pos hec]
        -- This is the entry of the character, and the others are not reached.
        by_cases hed : e = d
        · have hcd : c = d := by rw [← hec, hed]
          simp only [List.find?, hed, decide_true, hcd, if_true, Array.toList_push]
        · have hcd : c ≠ d := by rw [← hec]; exact hed
          simp only [List.find?, hed, decide_false, hcd, if_false, List.append_nil]
      · rw [if_neg hec]
        by_cases hed : e = d
        · have hcd : c ≠ d := fun h => hec (by rw [h, hed])
          simp only [List.find?, hed, decide_true, hcd, if_false, List.append_nil]
        · simpa only [List.find?, hed, decide_false] using ih

/-- Cells that are read from one row append those that hold a character to what the index
    has of it. -/
theorem positions_foldl_record (row : Nat) (cells : List (Char × Nat)) (index : PositionIndex)
    (c : Char) :
    (cells.foldl (fun index (d, column) => index.record d ⟨row, column⟩) index).positions c =
      index.positions c ++
        cells.filterMap fun (d, column) => if d = c then some ⟨row, column⟩ else none := by
  induction cells generalizing index with
  | nil => simp only [List.foldl_nil, List.filterMap_nil, List.append_nil]
  | cons cell more ih =>
      rcases cell with ⟨d, column⟩
      rw [List.foldl_cons, ih, positions_record, List.append_assoc]
      by_cases hdc : d = c
      · simp only [List.filterMap_cons, hdc, if_true, List.singleton_append]
      · simp only [List.filterMap_cons, hdc, if_false, List.nil_append]

/-- A row appends its occurrences of every character. -/
theorem positions_addRow (index : PositionIndex) (row : Nat) (cells : List Char) (c : Char) :
    (index.addRow row cells).positions c = index.positions c ++ occurrencesInRow row cells c :=
  positions_foldl_record row cells.zipIdx index c

/-- Rows append their occurrences of every character, one row after the other. -/
theorem positions_foldl_addRow (rows : List (List Char × Nat)) (index : PositionIndex)
    (c : Char) :
    (rows.foldl (fun index (cells, row) => index.addRow row cells) index).positions c =
      index.positions c ++ rows.flatMap fun (cells, row) => occurrencesInRow row cells c := by
  induction rows generalizing index with
  | nil => simp only [List.foldl_nil, List.flatMap_nil, List.append_nil]
  | cons first more ih =>
      rcases first with ⟨cells, row⟩
      rw [List.foldl_cons, ih, positions_addRow, List.flatMap_cons, List.append_assoc]

/-- The index of a map has the occurrences of every character. -/
theorem positions_ofRows (rows : List (List Char)) (c : Char) :
    (ofRows rows).positions c = occurrences rows c := by
  rw [ofRows, positions_foldl_addRow, positions_empty, List.nil_append, occurrences]

end PositionIndex

/-- A reference is looked up among the occurrences of its character. -/
theorem lookup_eq (rows : List (List Char)) (symbol target : Char) :
    lookup rows symbol target =
      match occurrences rows target with
      | [] => .error (.unresolved symbol target)
      | [only] => .ok only
      | first :: more => .error (.ambiguous symbol target (more.length + 1) first) := by
  rw [← PositionIndex.positions_ofRows]
  rfl

end PuzzleLevel
