import PuzzleLevel.Json.Printer
import PuzzleLevel.Json.Reader

/-!
# Strings Read Back

Every character of a string is written as one piece: itself, or an escape that
names it. `piece` says which, and a string reads back because the pieces of what
was written are the pieces of its characters, one by one, and join to them again.

The escapes with four digits name control characters only. These are far below
the surrogates, so no two of them are ever taken for a pair. The one escape that
names half of a pair is written for a string without characters, and stands alone.

## Main definitions

* `Json.shortEscaped`: The characters with a short escape.
* `Json.piece`: The piece that a character is written as.

## Theorems

* `readPieces?_escaped`: A character reads back as its piece.
* `joinPieces?_map_piece`: The pieces of characters join to the characters.
* `readString_quoted`: A string reads back.
-/

namespace PuzzleLevel

namespace Json

/-- The characters that have an escape of two characters. -/
def shortEscaped : List Char := ['"', '\\', '\x08', '\x0C', '\n', '\r', '\t']

/-- The piece that a character is written as. -/
def piece (c : Char) : Piece :=
  if c.toNat < 0x20 ∧ c ∉ shortEscaped then .unit c.toNat else .char c

theorem unit?_control {n : Nat} (h : n < 0x20) :
    unit? '0' '0' (hexDigit (n / 16)) (hexDigit n) = some n := by
  have hall : ∀ m : Fin 0x20,
      unit? '0' '0' (hexDigit (m.1 / 16)) (hexDigit m.1) = some m.1 := by decide
  exact hall ⟨n, h⟩

/-- A character that needs no escape is read as it is. -/
theorem readPieces?_plain {c : Char} {s after : List Char} {pieces : List Piece}
    (hquote : c ≠ '"') (hslash : c ≠ '\\') (hcontrol : ¬ c.toNat < 0x20)
    (h : readPieces? s = some (pieces, after)) :
    readPieces? (c :: s) = some (.char c :: pieces, after) := by
  rw [readPieces?, if_neg hcontrol, h]
  · exact hquote
  · exact fun _ _ _ _ _ he => absurd he hslash
  · exact fun _ _ he => absurd he hslash

theorem readPieces?_short {c e : Char} {s after : List Char} {pieces : List Piece}
    (hunit : c ≠ 'u') (hshort : shortEscape? c = some e)
    (h : readPieces? s = some (pieces, after)) :
    readPieces? ('\\' :: c :: s) = some (.char e :: pieces, after) := by
  rw [readPieces?, hshort, h]
  exact fun _ _ _ _ _ he => absurd he hunit

/-- A character reads back as its piece. -/
theorem readPieces?_escaped (c : Char) {s after : List Char} {pieces : List Piece}
    (h : readPieces? s = some (pieces, after)) :
    readPieces? (escaped c ++ s) = some (piece c :: pieces, after) := by
  by_cases hshort : c ∈ shortEscaped
  · simp only [shortEscaped, List.mem_cons, List.not_mem_nil, or_false] at hshort
    rcases hshort with rfl | rfl | rfl | rfl | rfl | rfl | rfl
    all_goals exact readPieces?_short (by decide) rfl h
  · have hall := hshort
    simp only [shortEscaped, List.mem_cons, List.not_mem_nil, or_false, not_or] at hall
    rcases hall with ⟨hquote, hslash, hb, hf, hn, hr, ht⟩
    rw [escaped, if_neg hquote, if_neg hslash, if_neg hb, if_neg hf, if_neg hn, if_neg hr,
      if_neg ht, piece]
    by_cases hcontrol : c.toNat < 0x20
    · rw [if_pos hcontrol, if_pos ⟨hcontrol, hshort⟩]
      simp only [List.cons_append, List.nil_append]
      rw [readPieces?, unit?_control hcontrol, h]
    · rw [if_neg hcontrol, if_neg fun hc => hcontrol hc.1]
      exact readPieces?_plain hquote hslash hcontrol h

theorem readPieces?_flatMap (chars rest : List Char) :
    readPieces? (chars.flatMap escaped ++ '"' :: rest) = some (chars.map piece, rest) := by
  induction chars with
  | nil => rfl
  | cons c more ih =>
      rw [List.flatMap_cons, List.append_assoc]
      exact readPieces?_escaped c ih

/-- A unit below the surrogates is a character, whatever follows it. -/
theorem joinPieces?_unit {n : Nat} (h : n < 0x20) (more : List Piece) :
    joinPieces? (.unit n :: more) = (joinPieces? more).map (Char.ofNat n :: ·) := by
  have hhigh : isHighHalf n = false := by
    rw [isHighHalf, Bool.and_eq_false_iff, decide_eq_false_iff_not]
    exact Or.inl (by omega)
  have hlow : isLowHalf n = false := by
    rw [isLowHalf, Bool.and_eq_false_iff, decide_eq_false_iff_not]
    exact Or.inl (by omega)
  cases more with
  | nil => simp only [joinPieces?, hhigh, hlow, Bool.or_self, Bool.false_eq_true, if_false]
  | cons first more =>
      cases first with
      | char c => simp only [joinPieces?, hhigh, hlow, Bool.or_self, Bool.false_eq_true, if_false]
      | unit low =>
          rw [joinPieces?.eq_def]
          simp only [hhigh, hlow, Bool.false_and, Bool.or_self, Bool.false_eq_true, if_false]

/-- The pieces of characters join to the characters. -/
theorem joinPieces?_map_piece (chars : List Char) :
    joinPieces? (chars.map piece) = some chars := by
  induction chars with
  | nil => rfl
  | cons c more ih =>
      rw [List.map_cons, piece]
      by_cases hunit : c.toNat < 0x20 ∧ c ∉ shortEscaped
      · rw [if_pos hunit, joinPieces?_unit hunit.1, ih, Char.ofNat_toNat]
        rfl
      · rw [if_neg hunit, joinPieces?, ih]
        rfl

/-- A string reads back, whatever follows its closing quote. -/
theorem readString_quoted (s : Option String) (rest : List Char) :
    ∃ body h, quoted s ++ rest = '"' :: body ∧ readString body = some (s, ⟨rest, h⟩) := by
  -- Reading a string is reading its pieces and joining them.
  have hread : ∀ {body : List Char} {pieces : List Piece},
      readPieces? body = some (pieces, rest) →
      ∃ h, readString body = some ((joinPieces? pieces).map String.ofList, ⟨rest, h⟩) := by
    intro body pieces hpieces
    refine ⟨readPieces?_length hpieces, ?_⟩
    rw [readString]
    split
    · rename_i found tail hfound
      rw [hpieces, Option.some.injEq, Prod.mk.injEq] at hfound
      simp only [hfound.1, hfound.2]
    · rename_i hfound
      rw [hpieces] at hfound
      exact absurd hfound (by simp only [reduceCtorEq, not_false_eq_true])
  cases s with
  | none =>
      -- Characters that are missing are written as half of a pair, which joins to nothing.
      have hpieces : readPieces? (unpairedEscape ++ '"' :: rest) = some ([.unit 0xD800], rest) := by
        rw [unpairedEscape]
        simp only [List.cons_append, List.nil_append]
        rw [readPieces?, show readPieces? ('"' :: rest) = some ([], rest) from rfl]
        rfl
      rcases hread hpieces with ⟨h, hstring⟩
      refine ⟨unpairedEscape ++ '"' :: rest, h, ?_, hstring⟩
      rw [quoted, List.append_assoc]
      rfl
  | some text =>
      rcases hread (readPieces?_flatMap text.toList rest) with ⟨h, hstring⟩
      refine ⟨text.toList.flatMap escaped ++ '"' :: rest, h, ?_, ?_⟩
      · rw [quoted, List.append_assoc]
        rfl
      · rw [hstring, joinPieces?_map_piece, Option.map_some, String.ofList_toList]

end Json

end PuzzleLevel
