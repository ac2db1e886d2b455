import PuzzleLevel.Text.Line

/-!
# Lines by Their Numbers

A message about a line of a file shows its number, and whoever looks the number up counts
line feeds: line one is what stands in front of the first, and any other line is found one
number earlier behind it. `IsLine` says this of the text itself, before it is cut, so that
the place of a line in the list of lines can be compared with it.

An ending is as long as it can be. A carriage return in front of a line feed belongs to the
ending, also if more of them stand there, and then only the last one does.

## Main definitions

* `EndsLine`: What stands behind a line.
* `IsLine`: A line of a text, by its number.

## Theorems

* `lines_append_return`: A line in front of a carriage return and a line feed is read back.
* `exists_lines_append`: A line in front of a line feed is read without its ending.
* `lines_cases`: A text is empty, or one line, or goes on behind its first line feed.
* `isLine_of_lines`: The lines of a text are numbered by their places.
-/

namespace PuzzleLevel

namespace Text

/-- What stands behind a line: nothing at all, or an ending and whatever follows it. -/
inductive EndsLine (line : List Char) : List Char → Prop
  | last : EndsLine line []
  | feed (rest : List Char) (hreturn : line.getLast? ≠ some '\r') : EndsLine line ('\n' :: rest)
  | returnFeed (rest : List Char) : EndsLine line ('\r' :: '\n' :: rest)

/-- A line of a text, by its number counted from one. -/
inductive IsLine : List Char → Nat → List Char → Prop
  /-- The first line ends in front of the first line feed. -/
  | first (line rest : List Char) (hfeed : '\n' ∉ line) (hend : EndsLine line rest) :
      IsLine (line ++ rest) 1 line
  /-- Any other is found behind it, with a number less by one. -/
  | later (earlier rest : List Char) (number : Nat) (line : List Char)
      (hfeed : '\n' ∉ earlier) (h : IsLine rest number line) :
      IsLine (earlier ++ '\n' :: rest) (number + 1) line

/-- A line in front of a carriage return and a line feed is read back, whatever follows and
    whatever it ends in itself. -/
theorem lines_append_return {line : List Char} (rest : List Char) (h : '\n' ∉ line) :
    lines (line ++ '\r' :: '\n' :: rest) = line :: lines rest := by
  induction line with
  | nil => rfl
  | cons c more ih =>
      rw [List.mem_cons, not_or] at h
      have hnext : ∀ tail, more ++ '\r' :: '\n' :: rest ≠ '\n' :: tail := by
        intro tail heq
        cases more with
        | nil => exact absurd heq (by simp)
        | cons d tail =>
            rw [List.cons_append, List.cons.injEq] at heq
            exact h.2 (heq.1 ▸ List.mem_cons_self ..)
      rw [List.cons_append, lines.eq_4 c _ (Ne.symm h.1) (fun tail _ => hnext tail), ih h.2]

/-- A line in front of a line feed is read without its ending, whatever follows. The ending
    takes a carriage return from the line if there is one. -/
theorem exists_lines_append {line : List Char} (h : '\n' ∉ line) :
    ∃ found ending, line = found ++ ending ∧ (∀ rest, EndsLine found (ending ++ '\n' :: rest)) ∧
      ∀ rest, lines (line ++ '\n' :: rest) = found :: lines rest := by
  by_cases hreturn : line.getLast? = some '\r'
  · rcases List.getLast?_eq_some_iff.mp hreturn with ⟨found, rfl⟩
    refine ⟨found, ['\r'], rfl, .returnFeed, fun rest => ?_⟩
    rw [List.append_assoc, List.singleton_append]
    exact lines_append_return rest fun hfeed => h (List.mem_append_left _ hfeed)
  · exact ⟨line, [], (List.append_nil _).symm, fun rest => .feed rest hreturn,
      fun rest => lines_append_newline line rest h hreturn⟩

/-- A text without a line feed has one line, unless it is empty. -/
theorem lines_of_notMem {line : List Char} (hline : line ≠ []) (h : '\n' ∉ line) :
    lines line = [line] := by
  induction line with
  | nil => exact absurd rfl hline
  | cons c more ih =>
      rw [List.mem_cons, not_or] at h
      have hmore : lines more = if more = [] then [] else [more] := by
        by_cases hempty : more = []
        · rw [if_pos hempty, hempty]
          rfl
        · rw [if_neg hempty, ih hempty h.2]
      rw [lines.eq_4 c _ (Ne.symm h.1) (by
        rintro _ hr hfeed
        exact absurd (hfeed ▸ h.2) (by simp only [List.mem_cons, true_or, not_true_eq_false,
          not_false_eq_true])), hmore]
      by_cases hempty : more = []
      · rw [if_pos hempty, hempty]
      · rw [if_neg hempty]

/-- A text is empty, or one line without an ending, or goes on behind its first line feed. -/
theorem lines_cases (text : List Char) :
    (text = [] ∧ lines text = []) ∨ ('\n' ∉ text ∧ text ≠ [] ∧ lines text = [text]) ∨
      ∃ first rest, text = first ++ '\n' :: rest ∧ '\n' ∉ first := by
  by_cases hfeed : '\n' ∈ text
  · exact Or.inr (Or.inr (List.eq_append_cons_of_mem hfeed))
  · by_cases hempty : text = []
    · exact Or.inl ⟨hempty, by rw [hempty, lines]⟩
    · exact Or.inr (Or.inl ⟨hfeed, hempty, lines_of_notMem hempty hfeed⟩)

/-- The lines of a text are numbered by their places in the list of them. -/
theorem isLine_of_lines {text line : List Char} {i : Nat} (h : (lines text)[i]? = some line) :
    IsLine text (i + 1) line := by
  induction i generalizing text with
  | zero =>
      rcases lines_cases text with ⟨_, hlines⟩ | ⟨hfeed, _, hlines⟩ | ⟨first, rest, rfl, hfirst⟩
      · rw [hlines] at h
        exact absurd h (by simp only [List.getElem?_nil, reduceCtorEq, not_false_eq_true])
      · rw [hlines, List.getElem?_cons_zero, Option.some.injEq] at h
        rw [← h, show IsLine text = IsLine (text ++ []) by rw [List.append_nil]]
        exact .first text [] hfeed .last
      · rcases exists_lines_append hfirst with ⟨found, ending, rfl, hend, hlines⟩
        rw [hlines, List.getElem?_cons_zero, Option.some.injEq] at h
        rw [← h, List.append_assoc]
        exact .first found _ (fun hmem => hfirst (List.mem_append_left _ hmem)) (hend rest)
  | succ i ih =>
      rcases lines_cases text with ⟨_, hlines⟩ | ⟨_, _, hlines⟩ | ⟨first, rest, rfl, hfirst⟩
      · rw [hlines] at h
        exact absurd h (by simp only [List.getElem?_nil, reduceCtorEq, not_false_eq_true])
      · -- Without a line feed there is no second line.
        rw [hlines, List.getElem?_cons_succ] at h
        exact absurd h (by simp only [List.getElem?_nil, reduceCtorEq, not_false_eq_true])
      · rcases exists_lines_append hfirst with ⟨found, ending, _, _, hlines⟩
        rw [hlines, List.getElem?_cons_succ] at h
        exact .later first rest (i + 1) line hfirst (ih h)

end Text

end PuzzleLevel
