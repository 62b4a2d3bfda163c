/-
The pixels that a sprite covers on the screen. Row `r` of a sprite is one byte, and bit `7 - c` of
it stands for column `c`; both are counted from the position of the sprite and wrap at the edges.
-/
import ChipEight.Memory
import ChipEight.Raster

namespace ChipEight

open Layout

/-- How far `p` lies behind `origin` on a circle of `size` places. -/
def wrappedOffset (size origin p : Nat) : Nat := (p + (size - origin % size)) % size

/-- The lit pixels of the sprite of `rows` bytes at `address`, with its corner at `x` and `y`. -/
def spriteMask (m : Memory) (address rows x y : Nat) : Screen :=
  .ofFn fun px py =>
    let column := wrappedOffset screenWidth x px
    let row := wrappedOffset screenHeight y py
    decide (column < spriteWidth) && decide (row < rows) &&
      (m.read (address + row)).toNat.testBit (spriteWidth - 1 - column)

/-! ## Offsets on the circle -/

theorem wrappedOffset_lt {size : Nat} (origin p : Nat) (h : 0 < size) :
    wrappedOffset size origin p < size := Nat.mod_lt _ h

/-- The place `k` steps behind the origin is the one whose offset is `k`. -/
theorem wrappedOffset_eq_iff {size origin p k : Nat} (hp : p < size) (hk : k < size) :
    wrappedOffset size origin p = k ↔ p = (origin + k) % size := by
  have ho := Nat.mod_lt origin (Nat.zero_lt_of_lt hp)
  rw [Nat.add_mod, Nat.mod_eq_of_lt hk]
  unfold wrappedOffset
  generalize origin % size = o at ho ⊢
  rcases Nat.lt_or_ge p o with h | h
  · rw [Nat.mod_eq_of_lt (show p + (size - o) < size by omega)]
    rcases Nat.lt_or_ge (o + k) size with h' | h'
    · rw [Nat.mod_eq_of_lt h']
      omega
    · rw [Nat.mod_eq_sub_mod h', Nat.mod_eq_of_lt (by omega)]
      omega
  · rw [Nat.mod_eq_sub_mod (show size ≤ p + (size - o) by omega), Nat.mod_eq_of_lt (by omega)]
    rcases Nat.lt_or_ge (o + k) size with h' | h'
    · rw [Nat.mod_eq_of_lt h']
      omega
    · rw [Nat.mod_eq_sub_mod h', Nat.mod_eq_of_lt (by omega)]
      omega

end ChipEight
