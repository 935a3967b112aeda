import Mathlib.Data.Nat.Digits.Defs
import Exec09.Foundation.CText

/-! # What `sprintf` writes

The conversions of the C library with a width. A number takes the places that it
needs and at least those of its field, a text with a precision takes its field.
-/
namespace Exec09.Foundation.Text

/-- The digits of `%X` or `%x`. -/
def hex (upper : Bool) (v : ℕ) : Text :=
  (Nat.toDigits 16 v).map fun c => BitVec.ofNat 8 (if upper then c.toUpper else c).toNat

/-- `%0nX`. -/
def hexField (n v : ℕ) : Text := List.leftpad n 48 (hex true v)

/-- `%-n.ns`. -/
def clipped (n : ℕ) (t : Text) : Text := List.rightpad n 32 (t.take n)

/-- `sprintf` or `strcat` behind what is written, unless the text or its zero leaves the array. -/
def append (size : ℕ) (written piece : Text) : Option Text :=
  if written.length + piece.length < size then some (written ++ piece) else none

variable {n k v : ℕ}

theorem hex_length_le (upper : Bool) (hk : 0 < k) (hv : v < 16 ^ k) : (hex upper v).length ≤ k := by
  rw [hex, List.length_map]
  exact Nat.toDigits_length 16 v k hk hv

theorem hexField_length_le (hk : 0 < k) (hv : v < 16 ^ k) (hn : n ≤ k) :
    (hexField n v).length ≤ k := by
  rw [hexField, List.length_leftpad]
  exact max_le hn (hex_length_le true hk hv)

theorem hexField_length (hn : 0 < n) (hv : v < 16 ^ n) : (hexField n v).length = n := by
  rw [hexField, List.length_leftpad]
  exact max_eq_left (hex_length_le true hn hv)

theorem clipped_length (n : ℕ) (t : Text) : (clipped n t).length = n := by
  rw [clipped, List.length_rightpad, List.length_take]
  omega

theorem append_isSome {size : ℕ} {written piece : Text} :
    (append size written piece).isSome = true ↔ written.length + piece.length < size := by
  rw [append]
  split
  · exact iff_of_true rfl (by assumption)
  · exact iff_of_false Bool.false_ne_true (by assumption)

theorem append_of_lt {size : ℕ} {written piece : Text} (h : written.length + piece.length < size) :
    append size written piece = some (written ++ piece) := if_pos h

end Exec09.Foundation.Text
