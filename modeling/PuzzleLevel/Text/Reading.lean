/-!
# Reading from the Front of a Text

A reader takes a value from the front of a text and hands on what it has not
used. What it hands on is shorter than what it was given, and it says so in its
type: a reader that calls itself on the rest then ends because the text does, and
no reader needs to be told how often it may try.

Three languages are read this way, the legend of a level, JSON and TOML. They
differ in the characters that may stand between two parts, so skipping these is
written once and told which they are.

## Main definitions

* `Text.Rest`: What is left of a text after something was read from it.
* `Text.Reading`: A value with what is left, or nothing.
* `Text.skip`: A text without the spaces in front.
* `Text.next?`: The first character behind the spaces, with what stands after it.

## Theorems

* `skip_length_le`: Skipping never lengthens a text.
* `next?_append`: Spaces in front do not matter.
* `next?_eq_none_iff`, `next?_spaces`, `next?_split`: What comes next, told from how
  the text is made up.
-/

namespace PuzzleLevel

namespace Text

/-- What is left of a text after something was read from it. -/
abbrev Rest (s : List Char) := { rest : List Char // rest.length < s.length }

/-- What a reader gives back for a text: a value with what is left, or nothing
    when the text does not begin with a value. -/
abbrev Reading (α : Type) (s : List Char) := Option (α × Rest s)

/-- What is left of a text is left of a longer text, too. -/
def Rest.widen {s t : List Char} (h : s.length ≤ t.length) (rest : Rest s) : Rest t :=
  ⟨rest.1, Nat.lt_of_lt_of_le rest.2 h⟩

/-- What stands behind a character is shorter than with it. -/
theorem length_lt_cons (c : Char) (rest : List Char) : rest.length < (c :: rest).length :=
  Nat.lt_succ_self _

/-- What is shorter than a text is shorter than it with a character in front. -/
theorem length_lt_cons_of_lt {c : Char} {rest after : List Char}
    (h : after.length < rest.length) : after.length < (c :: rest).length :=
  Nat.lt_succ_of_lt h

/-- A text without the spaces in front. -/
def skip (isSpace : Char → Bool) (s : List Char) : List Char :=
  s.dropWhile isSpace

/-- Skipping never lengthens a text. -/
theorem skip_length_le (isSpace : Char → Bool) (s : List Char) :
    (skip isSpace s).length ≤ s.length :=
  (List.dropWhile_sublist _).length_le

/-- The first character behind the spaces, with what stands after it, or nothing
    when there are only spaces. -/
def next? (isSpace : Char → Bool) : (s : List Char) → Reading Char s
  | [] => none
  | c :: rest =>
    if isSpace c then
      (next? isSpace rest).map fun (d, tail) => (d, tail.widen (Nat.le_succ _))
    else some (c, ⟨rest, Nat.lt_succ_self _⟩)

/-- Spaces in front of a text do not matter to what comes next. -/
theorem next?_append (isSpace : Char → Bool) (spaces s : List Char)
    (h : ∀ c ∈ spaces, isSpace c = true) :
    next? isSpace (spaces ++ s) =
      (next? isSpace s).map fun (d, tail) =>
        (d, tail.widen (List.suffix_append spaces s).length_le) := by
  induction spaces with
  | nil =>
      -- Without spaces nothing is widened.
      cases hs : next? isSpace s <;> simp [hs, Rest.widen]
  | cons c more ih =>
      have hc : isSpace c = true := h c (List.mem_cons_self ..)
      have hmore := ih fun d hd => h d (List.mem_cons_of_mem _ hd)
      simp only [List.cons_append, next?, hc, if_true, hmore, Option.map_map]
      rfl

/-- Nothing comes next exactly if there are only spaces. -/
theorem next?_eq_none_iff (isSpace : Char → Bool) (s : List Char) :
    next? isSpace s = none ↔ ∀ c ∈ s, isSpace c = true := by
  induction s with
  | nil => simp only [next?, List.not_mem_nil, false_implies, implies_true]
  | cons c rest ih =>
      rw [next?, List.forall_mem_cons]
      by_cases hc : isSpace c = true
      · rw [if_pos hc, Option.map_eq_none_iff, ih]
        simp only [hc, true_and]
      · rw [if_neg hc]
        simp only [reduceCtorEq, hc, false_and]

/-- A character behind spaces that is none itself comes next. -/
theorem next?_spaces {isSpace : Char → Bool} {spaces : List Char} {c : Char} (rest : List Char)
    (hspaces : ∀ d ∈ spaces, isSpace d = true) (hc : isSpace c = false) :
    ∃ h, next? isSpace (spaces ++ c :: rest) = some (c, ⟨rest, h⟩) := by
  refine ⟨by rw [List.length_append, List.length_cons]; omega, ?_⟩
  rw [next?_append isSpace spaces _ hspaces, next?, hc]
  rfl

/-- What comes next stands behind spaces and is none itself. -/
theorem next?_split {isSpace : Char → Bool} {s rest : List Char} {c : Char}
    {hlength : rest.length < s.length} (h : next? isSpace s = some (c, ⟨rest, hlength⟩)) :
    ∃ spaces, (∀ d ∈ spaces, isSpace d = true) ∧ isSpace c = false ∧
      s = spaces ++ c :: rest := by
  induction s with
  | nil => exact absurd h (by simp only [next?, reduceCtorEq, not_false_eq_true])
  | cons d more ih =>
      rw [next?] at h
      by_cases hd : isSpace d = true
      · rw [if_pos hd, Option.map_eq_some_iff] at h
        rcases h with ⟨⟨e, tail, htail⟩, hmore, he⟩
        rw [Prod.mk.injEq, Rest.widen, Subtype.mk.injEq] at he
        rcases he with ⟨rfl, rfl⟩
        rcases ih hmore with ⟨spaces, hspaces, hvisible, hsplit⟩
        exact ⟨d :: spaces, List.forall_mem_cons.mpr ⟨hd, hspaces⟩, hvisible,
          congrArg (d :: ·) hsplit⟩
      · rw [if_neg hd, Option.some.injEq, Prod.mk.injEq, Subtype.mk.injEq] at h
        refine ⟨[], fun c hc => absurd hc List.not_mem_nil, ?_, ?_⟩
        · rw [← h.1, Bool.eq_false_iff]
          exact hd
        · rw [← h.1, ← h.2, List.nil_append]

end Text

end PuzzleLevel
