import PuzzleLevel.Proofs.Json.Magnitude
import PuzzleLevel.Proofs.Json.RoundTrip

/-!
# Documents Made of Records

Whatever the program writes is put together from whole numbers, strings, lists and records
with known keys. All of these can be read back: a whole number is written in plain decimal
digits without a needless zero in front, which is a number, and a string may hold anything.

## Theorems

* `writable_ofNat`: A whole number is written as a number.
* `writable_record`, `writable_array_map`: Records and lists can be read back if their parts
  can.
* `mapM_map_of_mem`: A list is read back if its items are.
-/

namespace PuzzleLevel

namespace Json

/-- No whole number but zero starts with a zero. -/
theorem head?_toDigits {n : Nat} (h : 0 < n) : (Nat.toDigits 10 n).head? ≠ some '0' := by
  induction n using Nat.strong_induction_on with
  | _ n ih =>
      by_cases hlt : n < 10
      · rw [Nat.toDigits_of_lt_base hlt, List.head?_cons, ne_eq, Option.some.injEq]
        have hall : ∀ m : Fin 10, 0 < m.1 → Nat.digitChar m.1 ≠ '0' := by decide
        exact hall ⟨n, hlt⟩ h
      · have hle : 10 ≤ n := Nat.le_of_not_lt hlt
        have hpos : 0 < n / 10 := by omega
        have hmore := ih (n / 10) (by omega) hpos
        rw [Nat.toDigits_of_base_le (by decide) hle]
        cases hfront : Nat.toDigits 10 (n / 10) with
        | nil => exact absurd hfront Nat.toDigits_ne_nil
        | cons d more =>
            rw [hfront] at hmore
            exact hmore

/-- A whole number is written as a number. -/
theorem writable_ofNat (n : Nat) : (ofNat n).Writable := by
  have hdigits := all_isDigit_toDigits n
  refine .number ?_ fun c hc => ?_
  · have hwithout : withoutMinus (Nat.toDigits 10 n) = Nat.toDigits 10 n := by
      rw [withoutMinus]
      intro rest he
      exact absurd (hdigits '-' (by rw [he]; exact List.mem_cons_self ..)) (by decide)
    have htake : (Nat.toDigits 10 n).takeWhile Char.isDigit = Nat.toDigits 10 n :=
      List.takeWhile_eq_self_iff.mpr hdigits
    have hdrop : (Nat.toDigits 10 n).dropWhile Char.isDigit = [] :=
      List.dropWhile_eq_nil_iff.mpr hdigits
    have hlead : ((Nat.toDigits 10 n).length = 1 || (Nat.toDigits 10 n).head? ≠ some '0') =
        true := by
      by_cases hzero : n = 0
      · rw [hzero]
        rfl
      · rw [Bool.or_eq_true, decide_eq_true_eq, decide_eq_true_eq]
        exact Or.inr (head?_toDigits (Nat.pos_of_ne_zero hzero))
    rw [isNumber, hwithout, htake, hdrop, hlead, List.isEmpty_eq_false_iff.mpr Nat.toDigits_ne_nil]
    rfl
  · rw [isNumberChar, hdigits c hc]
    rfl

theorem writable_text (s : String) : (text s).Writable := .string (some s)

theorem writable_texts (strings : List String) : (texts strings).Writable := by
  refine .array fun item hitem => ?_
  rcases List.mem_map.mp hitem with ⟨s, _, rfl⟩
  exact writable_text s

theorem writable_record {members : List (String × Json)}
    (h : ∀ member ∈ members, member.2.Writable) : (record members).Writable := by
  refine .object fun member hmember => ?_
  rcases List.mem_map.mp hmember with ⟨given, hgiven, rfl⟩
  exact h given hgiven

theorem writable_array_map {α : Type} {f : α → Json} (h : ∀ a, (f a).Writable) (items : List α) :
    (array (items.map f)).Writable := by
  refine .array fun item hitem => ?_
  rcases List.mem_map.mp hitem with ⟨a, _, rfl⟩
  exact h a

/-- A list is read back if its items are. -/
theorem mapM_map_of_mem {α β : Type} {write : α → β} {read? : β → Option α} {items : List α}
    (h : ∀ a ∈ items, read? (write a) = some a) : (items.map write).mapM read? = some items := by
  induction items with
  | nil => rfl
  | cons a more ih =>
      rw [List.map_cons, List.mapM_cons, h a (List.mem_cons_self ..),
        ih fun b hb => h b (List.mem_cons_of_mem _ hb)]
      rfl

theorem text?_texts (strings : List String) : (texts strings).texts? = some strings := by
  rw [texts, texts?, items?, Option.bind_some]
  exact mapM_map_of_mem fun _ _ => rfl

end Json

end PuzzleLevel
