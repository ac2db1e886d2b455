import Mathlib.Data.List.TakeWhile
import PuzzleLevel.Json.Magnitude

/-!
# Numbers that Fit a Field of 64 Bits

A whole number below two to the power of 64 is written in plain decimal digits, and
these are read in two ways. A field of 64 bits takes them as they are. A tile is first
taken in whole, and there every number has to be within reach of floating point; a
number that fits never comes near that bound, because its digits all fit too and no
power of ten is left over.

## Theorems

* `nat64?_ofNat`: A number that fits is read back.
* `decimal_toDigits`: Its digits are taken in as they are, with no power of ten.
* `roundTo53Bits_le`: Rounding at most doubles a number.
* `isFinite_toDigits`: A number that fits is within reach of floating point.
-/

namespace PuzzleLevel

namespace Json

theorem all_isDigit_toDigits (n : Nat) : ∀ c ∈ Nat.toDigits 10 n, c.isDigit = true :=
  fun _ hc => Nat.isDigit_of_mem_toDigits (by decide) (by decide) hc

/-- A number that fits is read back. -/
theorem nat64?_ofNat {n : Nat} (h : n < nat64Bound) : (ofNat n).nat64? = some n := by
  have hdigits : (Nat.toDigits 10 n).all Char.isDigit = true :=
    List.all_eq_true.mpr (all_isDigit_toDigits n)
  have hvalue : Nat.ofDigitChars 10 (Nat.toDigits 10 n) 0 = n := Nat.ofDigitChars_ten_toDigits
  unfold ofNat nat64?
  simp only [hdigits, hvalue, Bool.true_and, decide_eq_true h, if_true]

/-- A number that was read fits. -/
theorem lt_of_nat64? {j : Json} {n : Nat} (h : j.nat64? = some n) : n < nat64Bound := by
  revert h
  fun_cases nat64? j with
  | case1 literal value hfits =>
      intro h
      rw [Option.some.injEq] at h
      rw [Bool.and_eq_true, decide_eq_true_eq] at hfits
      rw [← h]
      exact hfits.2
  | case2 literal value hfits => exact nofun
  | case3 j hnumber => exact nofun

theorem digitValue_of_isDigit {c : Char} (h : c.isDigit = true) :
    Text.digitValue c = c.toNat - '0'.toNat := by
  unfold Text.digitValue Text.hexValue?
  rw [if_pos h, Option.getD_some]

/-- Taking in more digits never makes a number smaller. -/
theorem le_ofDigitChars (digits : List Char) (init : Nat) :
    init ≤ Nat.ofDigitChars 10 digits init := by
  induction digits generalizing init with
  | nil => exact Nat.le_refl _
  | cons c more ih =>
      rw [Nat.ofDigitChars_cons]
      exact Nat.le_trans (by omega) (ih _)

/-- Digits that fit together are taken in one by one. -/
theorem takeWhole_of_lt {digits : List Char} (hdigits : ∀ c ∈ digits, c.isDigit = true)
    (init : Nat) (hfits : Nat.ofDigitChars 10 digits init < nat64Bound) :
    takeWhole digits init false 0 = ⟨Nat.ofDigitChars 10 digits init, 0⟩ := by
  induction digits generalizing init with
  | nil => rfl
  | cons c more ih =>
      rw [Nat.ofDigitChars_cons] at hfits ⊢
      have hvalue : init * 10 + Text.digitValue c = 10 * init + (c.toNat - '0'.toNat) := by
        rw [digitValue_of_isDigit (hdigits c (List.mem_cons_self ..)), Nat.mul_comm]
      have hsmall : ¬ nat64Bound ≤ 10 * init + (c.toNat - '0'.toNat) := by
        have hle := le_ofDigitChars more (10 * init + (c.toNat - '0'.toNat))
        omega
      unfold takeWhole
      simp only [hvalue, Bool.false_or, decide_eq_true_eq, if_neg hsmall]
      exact ih (fun d hd => hdigits d (List.mem_cons_of_mem _ hd)) _ hfits

/-- The digits of a number that fits are taken in as they are. -/
theorem decimal_toDigits {n : Nat} (h : n < nat64Bound) : decimal (Nat.toDigits 10 n) = ⟨n, 0⟩ := by
  have hdigits := all_isDigit_toDigits n
  have hvalue : Nat.ofDigitChars 10 (Nat.toDigits 10 n) 0 = n := Nat.ofDigitChars_ten_toDigits
  have hunsigned : (Nat.toDigits 10 n).dropWhile (· = '-') = Nat.toDigits 10 n := by
    cases hfirst : Nat.toDigits 10 n with
    | nil => rfl
    | cons c more =>
        have hminus : ¬ decide (c = '-') = true := by
          rw [decide_eq_true_eq]
          rintro rfl
          have hdigit := hdigits '-' (by rw [hfirst]; exact List.mem_cons_self ..)
          exact absurd hdigit (by decide)
        exact List.dropWhile_cons_of_neg hminus
  have htake : (Nat.toDigits 10 n).takeWhile Char.isDigit = Nat.toDigits 10 n :=
    List.takeWhile_eq_self_iff.mpr hdigits
  have hdrop : (Nat.toDigits 10 n).dropWhile Char.isDigit = [] :=
    List.dropWhile_eq_nil_iff.mpr hdigits
  have hwhole := takeWhole_of_lt hdigits 0 (by rw [hvalue]; exact h)
  rw [hvalue] at hwhole
  unfold decimal
  simp only [hunsigned, htake, hdrop, hwhole]
  rfl

/-- Rounding at most doubles a number. -/
theorem roundTo53Bits_le (n : Nat) : roundTo53Bits n ≤ n + n := by
  have hquotient : ∀ unit, roundedQuotient n unit * unit ≤ n + unit := by
    intro unit
    have hdiv := Nat.div_mul_le_self n unit
    have hle : roundedQuotient n unit ≤ n / unit + 1 := by
      unfold roundedQuotient
      dsimp only
      split
      · exact Nat.le_succ _
      · exact Nat.le_refl _
    have hmul := Nat.mul_le_mul_right unit hle
    rw [Nat.add_mul, Nat.one_mul] at hmul
    omega
  unfold roundTo53Bits
  by_cases hzero : n = 0
  · rw [hzero]
    decide
  · have hunit : Nat.pow 2 (n.log2 - 52) ≤ n :=
      Nat.le_trans (Nat.pow_le_pow_right (by decide) (Nat.sub_le _ _)) (Nat.log2_self_le hzero)
    exact Nat.le_trans (hquotient _) (Nat.add_le_add_left hunit n)

/-- A number that fits is within reach of floating point. -/
theorem isFinite_toDigits {n : Nat} (h : n < nat64Bound) :
    isFinite (Nat.toDigits 10 n) = true := by
  have hround := roundTo53Bits_le n
  have hone : roundTo53Bits (Nat.pow 10 0) = 1 := by decide
  have hreach : nat64Bound + nat64Bound ≤ infinityBound := by decide +kernel
  unfold isFinite
  simp only [decimal_toDigits h]
  by_cases hzero : n = 0
  · rw [if_pos (Or.inl hzero)]
  · rw [if_neg (by omega), if_neg (by omega), decide_eq_true_eq, Int.toNat_zero, hone,
      Nat.mul_one]
    omega

end Json

end PuzzleLevel
