import Mathlib.Data.List.TakeWhile
import PuzzleLevel.Legend.Grammar
import PuzzleLevel.Proofs.Text.Line
import PuzzleLevel.Source

/-!
# Blanking a Line of a Level Text

What a legend line does is best told by taking it away, and it is taken away without
moving any other line if a blank line is put in its place. `Text.replaceLine` does that to
the text as it stands in a file, before it is cut into lines, and so it has to leave alone
all that cutting does: the mark in front, the ending of the line, the separator.

Only the last line is special. It need not have an ending, and without one an empty line
is no line at all. So what the line leaves in the legend is called a gap: it is one line
or none, and nothing in it can be seen.

## Main definitions

* `Text.replaceLine`: A text with one line replaced.

## Theorems

* `lines_replaceLine`: The other lines of the text stay.
* `ofText_replaceLine`: The map and the other legend lines stay, with their numbers.
* `ofLines_of_notMem`: Lines without a separator are all of the map.
* `increasing_ofText`: Legend lines are numbered upwards.
* `isLine_of_mem_legend`: They have the numbers of their lines in the file.
-/

namespace PuzzleLevel

namespace Text

/-- A text with other characters for the line behind the first `before` lines. The line
    feed that ends the line stays. -/
def replaceLine (new : List Char) : Nat → List Char → List Char
  | _, [] => []
  | 0, c :: rest => new ++ (c :: rest).dropWhile (· ≠ '\n')
  | before + 1, c :: rest =>
    c :: replaceLine new (if c = '\n' then before else before + 1) rest

theorem replaceLine_succ_append (new : List Char) (before : Nat) {line : List Char}
    (rest : List Char) (h : '\n' ∉ line) :
    replaceLine new (before + 1) (line ++ '\n' :: rest) =
      line ++ '\n' :: replaceLine new before rest := by
  induction line with
  | nil => rw [List.nil_append, List.nil_append, replaceLine, if_pos rfl]
  | cons c more ih =>
      rw [List.mem_cons, not_or] at h
      rw [List.cons_append, List.cons_append, replaceLine, if_neg (Ne.symm h.1), ih h.2]

theorem dropWhile_append_feed {line : List Char} (rest : List Char) (h : '\n' ∉ line) :
    (line ++ '\n' :: rest).dropWhile (· ≠ '\n') = '\n' :: rest := by
  have hline : ∀ c ∈ line, decide (c ≠ '\n') = true :=
    fun c hc => decide_eq_true fun hfeed => h (hfeed ▸ hc)
  rw [List.dropWhile_append_of_pos hline, List.dropWhile_cons_of_neg (by decide)]

theorem replaceLine_zero_append (new : List Char) {line : List Char} (rest : List Char)
    (h : '\n' ∉ line) : replaceLine new 0 (line ++ '\n' :: rest) = new ++ '\n' :: rest := by
  have hdrop := dropWhile_append_feed rest h
  cases line with
  | nil => rfl
  | cons c more =>
      rw [List.cons_append] at hdrop ⊢
      rw [replaceLine, hdrop]

theorem replaceLine_zero_of_notMem (new : List Char) {line : List Char} (hline : line ≠ [])
    (h : '\n' ∉ line) : replaceLine new 0 line = new := by
  have hdrop : line.dropWhile (· ≠ '\n') = [] := by
    rw [List.dropWhile_eq_nil_iff]
    exact fun c hc => decide_eq_true fun hfeed => h (hfeed ▸ hc)
  cases line with
  | nil => exact absurd rfl hline
  | cons c more => rw [replaceLine, hdrop, List.append_nil]

/-- Other lines of a text stay when a line gets blank. The last line may be gone then. -/
theorem lines_replaceLine {blank : List Char} (hblank : IsBlankText blank)
    (hfeed : '\n' ∉ blank) {text : List Char} {before after : List (List Char)}
    {line : List Char} (h : lines text = before ++ line :: after) :
    ∃ gap, lines (replaceLine blank before.length text) = before ++ gap ++ after ∧
      (∀ l ∈ gap, IsBlankText l) ∧ (gap.length = 1 ∨ after = []) := by
  induction before generalizing text with
  | nil =>
      rw [List.nil_append] at h
      rcases lines_cases text with ⟨_, hnone⟩ | ⟨hlast, htext, hone⟩ | ⟨first, rest, rfl, hfirst⟩
      · rw [hnone] at h
        exact absurd h (by simp only [reduceCtorEq, not_false_eq_true])
      · rw [hone, List.cons.injEq] at h
        rw [List.length_nil, replaceLine_zero_of_notMem blank htext hlast, ← h.2]
        refine ⟨lines blank, (List.append_nil _).symm, fun l hl => ?_, Or.inr rfl⟩
        -- Without an ending an empty line is no line.
        by_cases hempty : blank = []
        · rw [hempty] at hl
          exact absurd hl List.not_mem_nil
        · rw [lines_of_notMem hempty hfeed, List.mem_singleton] at hl
          rwa [hl]
      · rcases exists_lines_append hfirst with ⟨read, _, _, _, hread⟩
        rcases exists_lines_append hfeed with ⟨found, ending, hfound, _, hlines⟩
        rw [hread, List.cons.injEq] at h
        refine ⟨[found], ?_, fun l hl => ?_, Or.inl rfl⟩
        · rw [List.length_nil, replaceLine_zero_append blank rest hfirst, hlines, h.2]
          rfl
        · rw [List.mem_singleton.mp hl]
          intro c hc
          refine hblank c ?_
          rw [hfound]
          exact List.mem_append_left _ hc
  | cons earlier more ih =>
      rcases lines_cases text with ⟨_, hnone⟩ | ⟨_, _, hone⟩ | ⟨first, rest, rfl, hfirst⟩
      · rw [hnone] at h
        exact absurd h (by simp only [List.cons_append, reduceCtorEq, not_false_eq_true])
      · rw [hone, List.cons_append, List.cons.injEq] at h
        exact absurd h.2 (by simp only [List.nil_eq, List.append_eq_nil_iff, reduceCtorEq,
          and_false, not_false_eq_true])
      · rcases exists_lines_append hfirst with ⟨read, _, _, _, hread⟩
        rw [hread, List.cons_append, List.cons.injEq] at h
        rcases ih h.2 with ⟨gap, hgap, hrest⟩
        refine ⟨gap, ?_, hrest⟩
        rw [List.length_cons, replaceLine_succ_append blank _ rest hfirst, hread, hgap, h.1]
        rfl

/-- Without a mark in front nothing is taken away. -/
theorem withoutMark_of_head? {text : List Char} (h : text.head? ≠ some byteOrderMark) :
    withoutMark text = text := by
  cases text with
  | nil => rfl
  | cons c rest =>
      have hc : c ≠ byteOrderMark := fun hmark => h (congrArg some hmark)
      rw [withoutMark, if_neg hc]

theorem withoutMark_of_notMem {text : List Char} (h : byteOrderMark ∉ text) :
    withoutMark text = text :=
  withoutMark_of_head? fun hmark => h (List.mem_of_mem_head? hmark)

/-- Behind the first line, lines are numbered alike with a mark in front and without. -/
theorem isLine_of_withoutMark {text line : List Char} {number : Nat}
    (h : IsLine (withoutMark text) (number + 2) line) : IsLine text (number + 2) line := by
  cases text with
  | nil => exact h
  | cons c rest =>
      rw [withoutMark] at h
      by_cases hmark : c = byteOrderMark
      · rw [if_pos hmark] at h
        cases h with
        | later earlier rest number line hfeed hline =>
            have hmarked : '\n' ∉ c :: earlier := by
              rw [List.mem_cons, not_or, hmark]
              exact ⟨by decide, hfeed⟩
            exact .later (c :: earlier) rest (number + 1) line hmarked hline
      · rwa [if_neg hmark] at h

/-- Besides the line feeds, a text made of lines has what its lines have. -/
theorem mem_unlines {lines : List (List Char)} {c : Char} (h : c ∈ unlines lines) :
    c = '\n' ∨ ∃ line ∈ lines, c ∈ line := by
  induction lines with
  | nil => exact absurd h List.not_mem_nil
  | cons line more ih =>
      rw [unlines, List.mem_append, List.mem_cons] at h
      rcases h with hline | hfeed | hmore
      · exact Or.inr ⟨line, List.mem_cons_self .., hline⟩
      · exact Or.inl hfeed
      · rcases ih hmore with hfeed | ⟨other, hother, hc⟩
        · exact Or.inl hfeed
        · exact Or.inr ⟨other, List.mem_cons_of_mem _ hother, hc⟩

/-- The mark in front of a text is part of the first line. -/
theorem withoutMark_replaceLine (new : List Char) (before : Nat) (text : List Char) :
    withoutMark (replaceLine new (before + 1) text) =
      replaceLine new (before + 1) (withoutMark text) := by
  cases text with
  | nil => rfl
  | cons c rest =>
      rw [replaceLine, withoutMark, withoutMark]
      by_cases hmark : c = byteOrderMark
      · have hc : c ≠ '\n' := by
          rw [hmark]
          decide
        rw [if_pos hmark, if_pos hmark, if_neg hc]
      · rw [if_neg hmark, if_neg hmark, replaceLine]

end Text

namespace Source

theorem numberFrom_cons (first : Nat) (line : List Char) (more : List (List Char)) :
    numberFrom first (line :: more) = ⟨first, line⟩ :: numberFrom (first + 1) more := rfl

theorem numberFrom_append (first : Nat) (front back : List (List Char)) :
    numberFrom first (front ++ back) =
      numberFrom first front ++ numberFrom (first + front.length) back := by
  rw [numberFrom, List.zipIdx_append, List.map_append]
  rfl

theorem numberFrom_text (first : Nat) (lines : List (List Char)) :
    (numberFrom first lines).map NumberedLine.text = lines := by
  rw [numberFrom, List.map_map]
  exact List.zipIdx_map_fst first lines

/-- A numbered line stands in its list where its number says. -/
theorem split_of_mem_numberFrom {first : Nat} {lines : List (List Char)} {line : NumberedLine}
    (h : line ∈ numberFrom first lines) :
    ∃ front back, lines = front ++ line.text :: back ∧ line.number = first + front.length := by
  induction lines generalizing first with
  | nil => exact absurd h List.not_mem_nil
  | cons text more ih =>
      rw [numberFrom_cons] at h
      rcases List.mem_cons.mp h with rfl | hmore
      · exact ⟨[], more, rfl, rfl⟩
      · rcases ih hmore with ⟨front, back, hsplit, hnumber⟩
        refine ⟨text :: front, back, by rw [hsplit]; rfl, ?_⟩
        rw [hnumber, List.length_cons]
        omega

theorem increasing_numberFrom (first : Nat) (lines : List (List Char)) :
    (numberFrom first lines).Pairwise fun a b => a.number < b.number := by
  induction lines generalizing first with
  | nil => exact .nil
  | cons text more ih =>
      rw [numberFrom_cons]
      refine .cons (fun later hlater => ?_) (ih (first + 1))
      rcases split_of_mem_numberFrom hlater with ⟨front, _, _, hnumber⟩
      rw [hnumber]
      show first < first + 1 + front.length
      omega

/-- Legend lines are numbered upwards. -/
theorem increasing_ofText (text : List Char) :
    (ofText text).legend.Pairwise fun a b => a.number < b.number :=
  increasing_numberFrom ..

/-- The map ends in front of the first separator. -/
theorem takeWhile_append_separator {rows : List (List Char)} (tail : List (List Char))
    (h : separator ∉ rows) : (rows ++ separator :: tail).takeWhile (· ≠ separator) = rows := by
  have hrows : ∀ row ∈ rows, decide (row ≠ separator) = true :=
    fun row hrow => decide_eq_true fun heq => h (heq ▸ hrow)
  rw [List.takeWhile_append_of_pos hrows, List.takeWhile_cons_of_neg (by decide), List.append_nil]

/-- The sections on both sides of the first separator. -/
theorem ofLines_append {rows : List (List Char)} (tail : List (List Char))
    (h : separator ∉ rows) :
    ofLines (rows ++ separator :: tail) = ⟨rows, numberFrom (rows.length + 2) tail⟩ := by
  unfold ofLines
  simp only [takeWhile_append_separator tail h]
  rw [List.drop_append, List.drop_eq_nil_of_le (Nat.le_succ _), List.nil_append,
    Nat.add_sub_cancel_left]
  rfl

/-- Without a separator all lines are rows of the map. -/
theorem ofLines_of_notMem {lines : List (List Char)} (h : separator ∉ lines) :
    ofLines lines = ⟨lines, []⟩ := by
  have hrows : lines.takeWhile (· ≠ separator) = lines := by
    rw [List.takeWhile_eq_self_iff]
    intro row hrow
    exact decide_eq_true fun heq => h (heq ▸ hrow)
  unfold ofLines
  simp only [hrows]
  rw [List.drop_eq_nil_of_le (Nat.le_succ _)]
  rfl

/-- A legend that has a line stands behind a separator. -/
theorem lines_of_mem_legend {lines : List (List Char)} {line : NumberedLine}
    (h : line ∈ (ofLines lines).legend) :
    ∃ rows tail, lines = rows ++ separator :: tail ∧ separator ∉ rows := by
  refine List.eq_append_cons_of_mem ?_
  by_contra hnone
  rw [ofLines_of_notMem hnone] at h
  exact absurd h List.not_mem_nil

/-- A legend line has the number of its line in the file. -/
theorem isLine_of_mem_legend {text : List Char} {line : NumberedLine}
    (h : line ∈ (ofText text).legend) : Text.IsLine text line.number line.text := by
  unfold ofText at h
  rcases lines_of_mem_legend h with ⟨rows, tail, hlines, hrows⟩
  rw [hlines, ofLines_append tail hrows] at h
  rcases split_of_mem_numberFrom h with ⟨front, back, rfl, hnumber⟩
  have hplace : (Text.lines (Text.withoutMark text))[rows.length + 1 + front.length]? =
      some line.text := by
    rw [hlines, List.getElem?_append_right (by omega),
      show rows.length + 1 + front.length - rows.length = front.length + 1 by omega,
      List.getElem?_cons_succ, List.getElem?_append_right (Nat.le_refl _), Nat.sub_self,
      List.getElem?_cons_zero]
  -- A separator stands in front of it, so it is not the first line.
  rw [hnumber, show rows.length + 2 + front.length = rows.length + front.length + 2 by omega]
  refine Text.isLine_of_withoutMark ?_
  rw [show rows.length + front.length + 2 = rows.length + 1 + front.length + 1 by omega]
  exact Text.isLine_of_lines hplace

/-- Blanking a legend line leaves the map and the other legend lines as they are. -/
theorem ofText_replaceLine {blank text : List Char} (hblank : IsBlankText blank)
    (hfeed : '\n' ∉ blank) {line : NumberedLine} (hline : line ∈ (ofText text).legend) :
    ∃ before gap after, (ofText text).legend = before ++ line :: after ∧
      (∀ l ∈ gap, IsBlankText l.text) ∧
      ofText (Text.replaceLine blank (line.number - 1) text) =
        ⟨(ofText text).rows, before ++ gap ++ after⟩ := by
  unfold ofText at hline ⊢
  rcases lines_of_mem_legend hline with ⟨rows, tail, hlines, hrows⟩
  rw [hlines, ofLines_append tail hrows] at hline ⊢
  rcases split_of_mem_numberFrom hline with ⟨front, back, rfl, hnumber⟩
  have hplace : line.number - 1 = (rows ++ separator :: front).length := by
    rw [hnumber, List.length_append, List.length_cons]
    omega
  have hsplit : Text.lines (Text.withoutMark text) =
      (rows ++ separator :: front) ++ line.text :: back := by
    rw [hlines, List.append_assoc, List.cons_append]
  rcases Text.lines_replaceLine hblank hfeed hsplit with ⟨gap, hgap, hgapblank, hlast⟩
  refine ⟨numberFrom (rows.length + 2) front, numberFrom line.number gap,
    numberFrom (line.number + 1) back, ?_, fun l hl => ?_, ?_⟩
  · rw [numberFrom_append, numberFrom_cons, ← hnumber]
  · rcases split_of_mem_numberFrom hl with ⟨_, _, hmem, _⟩
    exact hgapblank l.text (hmem ▸ List.mem_append_right _ (List.mem_cons_self ..))
  · have hmark : Text.withoutMark (Text.replaceLine blank (line.number - 1) text) =
        Text.replaceLine blank (line.number - 1) (Text.withoutMark text) := by
      rw [show line.number - 1 = rows.length + front.length + 1 by omega,
        Text.withoutMark_replaceLine]
    rw [hmark, hplace, hgap, List.append_assoc, List.append_assoc, List.cons_append,
      ofLines_append _ hrows, numberFrom_append, numberFrom_append, ← hnumber,
      List.append_assoc]
    -- The lines behind the gap keep their numbers, as there are none if the gap is empty.
    rcases hlast with hone | rfl
    · rw [hone]
    · rfl

end Source

end PuzzleLevel
