import PuzzleLevel.Proofs.Json.RoundTrip

/-!
# Compact Documents Stand on One Line

A text that is cut at line feeds keeps its documents whole only if no document holds one. A
compact document does not, and more is true: it holds no control character at all. Between
its parts there is nothing, not even a blank, and a number is made of number characters. So a
control character could come from a string only, and there each of them is written as an
escape, whose characters are ordinary ones.

The induction is over the document. What is inside a list or an object is written by
functions of their own, so each of these gets its lemma first, with the claim for the parts as
a hypothesis.

## Main definitions

* `Json.IsPrintable`: A text without control characters.

## Theorems

* `isPrintable_escaped`: A character is written inside a string without any.
* `isPrintable_charsItems`, `isPrintable_charsMembers`: So is what is inside a list or an
  object.
* `Writable.isPrintable`: A compact document is a text without control characters.
* `newline_notMem_compact`: There is no line feed in it.
-/

namespace PuzzleLevel

namespace Json

/-- A text without control characters. -/
def IsPrintable (text : List Char) : Prop :=
  ∀ c ∈ text, 0x20 ≤ c.toNat

-- Only the characters of the text are looked at, not all that there are.
instance (text : List Char) : Decidable (IsPrintable text) :=
  List.decidableBAll (fun c : Char => 0x20 ≤ c.toNat) text

theorem isPrintable_nil : IsPrintable [] :=
  fun _ hc => absurd hc List.not_mem_nil

theorem isPrintable_cons {c : Char} {text : List Char} :
    IsPrintable (c :: text) ↔ 0x20 ≤ c.toNat ∧ IsPrintable text :=
  List.forall_mem_cons

theorem isPrintable_append {front back : List Char} :
    IsPrintable (front ++ back) ↔ IsPrintable front ∧ IsPrintable back :=
  List.forall_mem_append

/-- A digit of a numbered escape is an ordinary character. -/
theorem printable_hexDigit (n : Nat) : 0x20 ≤ (hexDigit n).toNat := by
  have hall : ∀ m : Fin 16, 0x20 ≤ (Nat.digitChar m.1).toNat := by decide
  exact hall ⟨n % 16, Nat.mod_lt n (by decide)⟩

/-- A character is written inside a string without control characters. -/
theorem isPrintable_escaped (c : Char) : IsPrintable (escaped c) := by
  by_cases hshort : c ∈ shortEscaped
  · -- There are few characters with an escape of their own.
    simp only [shortEscaped, List.mem_cons, List.not_mem_nil, or_false] at hshort
    rcases hshort with rfl | rfl | rfl | rfl | rfl | rfl | rfl
    all_goals decide
  · simp only [shortEscaped, List.mem_cons, List.not_mem_nil, or_false, not_or] at hshort
    rcases hshort with ⟨hquote, hslash, hb, hf, hn, hr, ht⟩
    rw [escaped, if_neg hquote, if_neg hslash, if_neg hb, if_neg hf, if_neg hn, if_neg hr,
      if_neg ht]
    -- Any other control character is written by its number.
    by_cases hcontrol : c.toNat < 0x20
    · rw [if_pos hcontrol]
      simp only [isPrintable_cons]
      exact ⟨by decide, by decide, by decide, by decide, printable_hexDigit _,
        printable_hexDigit _, isPrintable_nil⟩
    · rw [if_neg hcontrol, isPrintable_cons]
      exact ⟨Nat.le_of_not_lt hcontrol, isPrintable_nil⟩

theorem isPrintable_quoted (s : Option String) : IsPrintable (quoted s) := by
  cases s with
  | none => decide
  | some text =>
      rw [quoted, isPrintable_append, isPrintable_cons]
      refine ⟨⟨by decide, fun c hc => ?_⟩, isPrintable_cons.mpr ⟨by decide, isPrintable_nil⟩⟩
      rcases List.mem_flatMap.mp hc with ⟨d, _, hd⟩
      exact isPrintable_escaped d c hd

/-- No character of a number is a control character. -/
theorem printable_of_isNumberChar {c : Char} (h : isNumberChar c = true) : 0x20 ≤ c.toNat := by
  unfold isNumberChar at h
  simp only [Bool.or_eq_true, decide_eq_true_eq] at h
  rcases h with ((((hdigit | rfl) | rfl) | rfl) | rfl) | rfl
  · -- A digit comes behind the zero, which is an ordinary character.
    have hzero : '0'.toNat = 0x30 := rfl
    have hbounds := Char.isDigit_iff_toNat.mp hdigit
    omega
  all_goals decide

theorem isPrintable_charsItems {items : List Json}
    (h : ∀ item ∈ items, ∀ depth, IsPrintable (chars .compact depth item)) (depth : Nat) :
    IsPrintable (charsItems .compact depth items) := by
  induction items with
  | nil =>
      rw [charsItems]
      exact isPrintable_cons.mpr ⟨by decide, isPrintable_nil⟩
  | cons item more ih =>
      rw [charsItems, isPrintable_append, List.cons_append, isPrintable_cons]
      exact ⟨⟨by decide, h item (List.mem_cons_self ..) (depth + 1)⟩,
        ih fun other hother => h other (List.mem_cons_of_mem _ hother)⟩

/-- A member is printable if its value is, and what stands behind it. -/
theorem isPrintable_memberText {member : Option String × Json} {rest : List Char}
    (h : ∀ depth, IsPrintable (chars .compact depth member.2)) (hrest : IsPrintable rest)
    (depth : Nat) : IsPrintable (memberText .compact depth member rest) := by
  rw [memberText, isPrintable_append, isPrintable_cons]
  refine ⟨isPrintable_quoted member.1, by decide, ?_⟩
  rw [isPrintable_append, isPrintable_append]
  exact ⟨isPrintable_nil, h (depth + 1), hrest⟩

theorem isPrintable_charsMembers {members : List (Option String × Json)}
    (h : ∀ member ∈ members, ∀ depth, IsPrintable (chars .compact depth member.2))
    (depth : Nat) : IsPrintable (charsMembers .compact depth members) := by
  induction members with
  | nil =>
      rw [charsMembers]
      exact isPrintable_cons.mpr ⟨by decide, isPrintable_nil⟩
  | cons member more ih =>
      have hmore := ih fun other hother => h other (List.mem_cons_of_mem _ hother)
      rw [charsMembers_cons, isPrintable_cons]
      exact ⟨by decide, isPrintable_memberText (h member (List.mem_cons_self ..)) hmore depth⟩

/-- A compact document is a text without control characters. -/
theorem Writable.isPrintable {j : Json} (hj : j.Writable) (depth : Nat) :
    IsPrintable (chars .compact depth j) := by
  induction hj generalizing depth with
  | null =>
      rw [chars]
      decide
  | bool value =>
      cases value with
      | true =>
          rw [chars]
          decide
      | false =>
          rw [chars]
          decide
  | number _ hchars =>
      rw [chars]
      exact fun c hc => printable_of_isNumberChar (hchars c hc)
  | string s =>
      rw [chars]
      exact isPrintable_quoted s
  | @array items _ ih =>
      cases items with
      | nil =>
          rw [chars]
          decide
      | cons item more =>
          rw [chars, isPrintable_append, List.cons_append, isPrintable_cons]
          exact ⟨⟨by decide, ih item (List.mem_cons_self ..) (depth + 1)⟩,
            isPrintable_charsItems (fun other hother => ih other (List.mem_cons_of_mem _ hother))
              depth⟩
  | @object members _ ih =>
      cases members with
      | nil =>
          rw [chars]
          decide
      | cons member more =>
          have hmore := isPrintable_charsMembers
            (fun other hother => ih other (List.mem_cons_of_mem _ hother)) depth
          rw [chars_object_cons, isPrintable_cons]
          exact ⟨by decide, isPrintable_memberText (ih member (List.mem_cons_self ..)) hmore depth⟩

/-- There is no line feed in a compact document. -/
theorem newline_notMem_compact {j : Json} (hj : j.Writable) : '\n' ∉ j.compact.toList := by
  intro hmem
  rw [compact, String.toList_ofList] at hmem
  exact absurd (hj.isPrintable 0 '\n' hmem) (by decide)

end Json

end PuzzleLevel
