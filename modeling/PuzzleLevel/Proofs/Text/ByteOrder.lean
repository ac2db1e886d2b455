import Mathlib.Data.List.Basic

/-!
# The Order of Texts and of Their Bytes

Texts are compared character by character, and a file or a system that knows only bytes
compares them byte by byte. In UTF-8 the two agree, because of how the bytes of a
character are laid out. A character with more bytes than another is the greater one and
has the greater first byte, and among characters with equally many bytes the bits are
spread over the bytes from the highest to the lowest.

## Main definitions

* `Text.bytes`: The bytes of a text.

## Theorems

* `encode_lt`: The bytes of the lesser character are less, whatever stands behind them.
* `bytes_lt`: The bytes of the lesser text are less.
-/

namespace PuzzleLevel

namespace Text

/-- The bytes of a text. -/
def bytes (s : String) : List UInt8 :=
  s.toUTF8.data.toList

theorem bytes_eq (s : String) : bytes s = s.toList.flatMap String.utf8EncodeChar := by
  rw [bytes, String.toUTF8_eq_toByteArray, ← String.utf8Encode_toList, List.utf8Encode,
    List.data_toByteArray]

/-- Byte by byte: a lesser byte decides, and equal ones leave it to what follows. -/
theorem ofNat_cons_lt {m n : Nat} (hm : m < 256) (hn : n < 256) {x y : List UInt8} (hle : m ≤ n)
    (hmore : m = n → x < y) : UInt8.ofNat m :: x < UInt8.ofNat n :: y := by
  rw [List.cons_lt_cons_iff]
  rcases Nat.lt_or_eq_of_le hle with hlt | rfl
  · refine Or.inl ?_
    rwa [UInt8.lt_iff_toNat_lt, UInt8.toNat_ofNat_of_lt' hm, UInt8.toNat_ofNat_of_lt' hn]
  · exact Or.inr ⟨rfl, hmore rfl⟩

theorem val_lt (c : Char) : c.val.toNat < 0x110000 := by
  rcases c.valid with h | ⟨_, h⟩
  · exact Nat.lt_trans h (by decide)
  · exact h

/-- The bytes of the lesser character are less, whatever stands behind them. -/
theorem encode_lt {c d : Char} (h : c < d) (x y : List UInt8) :
    String.utf8EncodeChar c ++ x < String.utf8EncodeChar d ++ y := by
  have hlt : c.val.toNat < d.val.toNat := h
  have hd := val_lt d
  unfold String.utf8EncodeChar
  dsimp only
  generalize c.val.toNat = m at *
  generalize d.val.toNat = n at *
  repeat' split
  all_goals
    simp only [List.cons_append, List.nil_append]
    -- Some byte is less before the shorter one ends: as long as the bytes are equal, so
    -- are the bits that they hold.
    repeat
      first
      | omega
      | refine ofNat_cons_lt (by omega) (by omega) (by omega) fun _ => ?_

theorem encode_ne_nil (c : Char) : String.utf8EncodeChar c ≠ [] := by
  unfold String.utf8EncodeChar
  dsimp only
  repeat' split
  all_goals exact List.cons_ne_nil _ _

/-- The bytes of the lesser text are less. -/
theorem bytes_lt {s t : String} (h : s < t) : bytes s < bytes t := by
  rw [bytes_eq, bytes_eq]
  have hchars : s.toList < t.toList := h
  generalize s.toList = cs at hchars
  generalize t.toList = ds at hchars
  induction hchars with
  | @nil d ds =>
      rw [List.flatMap_nil, List.flatMap_cons]
      cases hbytes : String.utf8EncodeChar d with
      | nil => exact absurd hbytes (encode_ne_nil d)
      | cons b more => exact List.nil_lt_cons _ _
  | @cons c cs ds _ ih =>
      rw [List.flatMap_cons, List.flatMap_cons]
      exact List.append_left_lt ih
  | @rel c cs d ds hlt =>
      rw [List.flatMap_cons, List.flatMap_cons]
      exact encode_lt hlt _ _

end Text

end PuzzleLevel
