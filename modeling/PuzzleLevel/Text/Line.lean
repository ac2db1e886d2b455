/-!
# Lines of a Text

A text is cut into lines at every line feed. A line may end in a carriage return
and a line feed together; then both belong to the ending, but a carriage return
anywhere else is an ordinary character, also at the end of a last line that has
no line feed. A final line feed ends the last line and opens no further one.

## Main definitions

* `lines`: The lines of a text, without their endings.
* `unlines`: The text in which every line ends in a line feed.

## Theorems

* `lines_append_newline`: A line in front of a line feed is read back.
-/

namespace PuzzleLevel

namespace Text

/-- The lines of a text, without their endings. -/
def lines : List Char → List (List Char)
  | [] => []
  | '\n' :: rest => [] :: lines rest
  | '\r' :: '\n' :: rest => [] :: lines rest
  | c :: rest =>
    match lines rest with
    -- The last line has no line feed.
    | [] => [[c]]
    | line :: more => (c :: line) :: more

/-- The text in which every line ends in a line feed. -/
def unlines : List (List Char) → List Char
  | [] => []
  | line :: more => line ++ '\n' :: unlines more

/-- A line in front of a line feed is read back, whatever follows. The line must
    not hold a line feed itself, nor end in a carriage return, which would be
    taken for a part of the ending. -/
theorem lines_append_newline (line rest : List Char) (hfeed : '\n' ∉ line)
    (hreturn : line.getLast? ≠ some '\r') :
    lines (line ++ '\n' :: rest) = line :: lines rest := by
  induction line with
  | nil => rfl
  | cons c more ih =>
    have hc : c ≠ '\n' := fun h => hfeed (h ▸ List.mem_cons_self ..)
    have hmore : '\n' ∉ more := fun h => hfeed (List.mem_cons_of_mem _ h)
    cases more with
    | nil =>
      have hr : c ≠ '\r' := by simpa using hreturn
      simp [lines, hr]
    | cons d tail =>
      have hlast : (d :: tail).getLast? ≠ some '\r' := by simpa using hreturn
      have hd : d ≠ '\n' := fun h => hmore (h ▸ List.mem_cons_self ..)
      have := ih hmore hlast
      simp only [List.cons_append] at this ⊢
      rw [lines.eq_4 c _ hc (by rintro _ _ h; exact hd (List.cons.inj h).1), this]

end Text

end PuzzleLevel
