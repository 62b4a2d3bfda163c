/-
Hexadecimal text read back. The digits of a number have its value, and neither zeros in front of them nor a
minus sign hide it, so that `readHex` undoes `hex` whatever the width (`readHex_hex`). The text has no other
characters than these, and where it is wide enough for a number it is exactly as wide.
-/
import ChipEight.Text.Basic
import Mathlib.Algebra.Group.Nat.Defs

namespace ChipEight.Text

/-! ## Digits -/

/-- The digits in the order of their values. -/
def hexAlphabet : List Char := "0123456789ABCDEF".toList

/-- The value of a row of digits, the highest first. -/
def hexValue (digits : List Char) : Nat :=
  digits.foldl (fun value digit => 16 * value + hexAlphabet.idxOf digit) 0

theorem hexValue_concat (digits : List Char) (digit : Char) :
    hexValue (digits ++ [digit]) = 16 * hexValue digits + hexAlphabet.idxOf digit := by
  rw [hexValue, List.foldl_append]
  rfl

/-- The digit of a value is written as the character in its place. -/
theorem upper_digitChar {d : Nat} (h : d < 16) :
    d.digitChar.toUpper ∈ hexAlphabet ∧ hexAlphabet.idxOf d.digitChar.toUpper = d := by
  revert d
  decide

theorem hexDigits_of_lt {n : Nat} (h : n < 16) : hexDigits n = [n.digitChar.toUpper] := by
  rw [hexDigits, Nat.toDigits_of_lt_base h, List.map_singleton]

theorem hexDigits_of_le {n : Nat} (h : 16 ≤ n) :
    hexDigits n = hexDigits (n / 16) ++ [(n % 16).digitChar.toUpper] := by
  rw [hexDigits, Nat.toDigits_of_base_le (by decide) h, List.map_append, List.map_singleton, hexDigits]

theorem hexValue_hexDigits (n : Nat) : hexValue (hexDigits n) = n := by
  induction n using Nat.strongRecOn with
  | ind n ih =>
    by_cases h : n < 16
    · rw [hexDigits_of_lt h]
      show 16 * 0 + hexAlphabet.idxOf n.digitChar.toUpper = n
      rw [(upper_digitChar h).2]
      omega
    · rw [hexDigits_of_le (by omega), hexValue_concat, ih (n / 16) (by omega),
        (upper_digitChar (Nat.mod_lt n (by decide))).2]
      omega

theorem mem_hexDigits {n : Nat} {c : Char} (h : c ∈ hexDigits n) : c ∈ hexAlphabet := by
  induction n using Nat.strongRecOn with
  | ind n ih =>
    by_cases hn : n < 16
    · rw [hexDigits_of_lt hn, List.mem_singleton] at h
      rw [h]
      exact (upper_digitChar hn).1
    · rw [hexDigits_of_le (by omega), List.mem_append, List.mem_singleton] at h
      rcases h with h | rfl
      · exact ih (n / 16) (by omega) h
      · exact (upper_digitChar (Nat.mod_lt n (by decide))).1

/-! ## Zeros in front -/

theorem hexValue_zeros (k : Nat) (digits : List Char) :
    hexValue (List.replicate k '0' ++ digits) = hexValue digits := by
  induction k with
  | zero => rfl
  | succ k ih =>
    rw [List.replicate_succ, List.cons_append, ← ih]
    rfl

theorem hexValue_leftpad (width n : Nat) :
    hexValue (List.leftpad width '0' (hexDigits n)) = n := by
  rw [List.leftpad, hexValue_zeros, hexValue_hexDigits]

theorem mem_leftpad {width n : Nat} {c : Char} (h : c ∈ List.leftpad width '0' (hexDigits n)) :
    c ∈ hexAlphabet := by
  rw [List.leftpad, List.mem_append] at h
  rcases h with h | h
  · rw [List.eq_of_mem_replicate h]
    decide
  · exact mem_hexDigits h

theorem length_leftpad_of_lt {width n : Nat} (hw : 0 < width) (h : n < 16 ^ width) :
    (List.leftpad width '0' (hexDigits n)).length = width := by
  have hle : (hexDigits n).length ≤ width := by
    rw [hexDigits, List.length_map]
    exact (Nat.length_toDigits_le_iff (by decide) hw).2 h
  rw [List.length_leftpad, Nat.max_eq_left hle]

/-! ## Signed numbers -/

theorem toList_hex_natCast (width n : Nat) :
    (hex width n).toList = List.leftpad width '0' (hexDigits n) := by
  rw [hex, String.toList_ofList, if_neg (by omega), Int.natAbs_natCast]

theorem toList_hex_of_neg (width : Nat) {n : Int} (h : n < 0) :
    (hex width n).toList = '-' :: List.leftpad (width - 1) '0' (hexDigits n.natAbs) := by
  rw [hex, String.toList_ofList, if_pos h]

/-- The number that a text shows, with a minus sign in front if it is negative. -/
def readHex : List Char → Int
  | '-' :: digits => -(hexValue digits : Int)
  | digits => hexValue digits

theorem readHex_of_digits {digits : List Char} (h : ∀ c ∈ digits, c ∈ hexAlphabet) :
    readHex digits = hexValue digits := by
  unfold readHex
  split
  · have hminus : '-' ∉ hexAlphabet := by decide
    exact absurd (h '-' List.mem_cons_self) hminus
  · rfl

theorem readHex_hex (width : Nat) (n : Int) : readHex (hex width n).toList = n := by
  by_cases hn : n < 0
  · rw [toList_hex_of_neg width hn]
    show -(hexValue (List.leftpad (width - 1) '0' (hexDigits n.natAbs)) : Int) = n
    rw [hexValue_leftpad]
    omega
  · obtain ⟨k, rfl⟩ := Int.eq_ofNat_of_zero_le (Int.not_lt.1 hn)
    rw [toList_hex_natCast, readHex_of_digits (fun c hc => mem_leftpad hc), hexValue_leftpad]

theorem hex_inj {width : Nat} {m n : Int} (h : hex width m = hex width n) : m = n := by
  rw [← readHex_hex width m, h, readHex_hex]

end ChipEight.Text
