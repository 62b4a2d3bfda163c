/-
The memory of the machine, seen through `read`. A read past the end sees the last byte and a write
past the end is lost; `read_writeBlock` says which addresses a block write replaces.
-/
import ChipEight.Layout

namespace ChipEight

open Layout

structure Memory where
  cells : Vector UInt8 memorySize
deriving DecidableEq

namespace Memory

/-- The byte at `a`; past the end of memory, the last byte. -/
def read (m : Memory) (a : Nat) : UInt8 :=
  have h : min a (memorySize - 1) < memorySize := by simp only [memorySize]; omega
  m.cells[min a (memorySize - 1)]

/-- Stores `b` at `a`; past the end of memory nothing is stored. -/
def write (m : Memory) (a : Nat) (b : UInt8) : Memory :=
  if h : a < memorySize then ⟨m.cells.set a b h⟩ else m

/-- Stores the bytes one after the other from `a` on. -/
def writeBlock (m : Memory) (a : Nat) : List UInt8 → Memory
  | [] => m
  | b :: bs => (m.write a b).writeBlock (a + 1) bs

/-- The two bytes at `a` and `a + 1` as one word, high byte first. -/
def word (m : Memory) (a : Nat) : UInt16 :=
  .ofNat (256 * (m.read a).toNat + (m.read (a + 1)).toNat)

def blank : Memory := ⟨.replicate memorySize 0⟩

/-- Memory as it is after power-on: zero but for the font. -/
def initial : Memory := blank.writeBlock fontStart font

/-! ## Reading back -/

theorem read_eq_getElem (m : Memory) {a : Nat} (h : a < memorySize) : m.read a = m.cells[a] := by
  have hmin : min a (memorySize - 1) = a := by simp only [memorySize] at h ⊢; omega
  simp only [read, hmin]

/-- Inside memory a read is not clipped. -/
theorem getElem?_cells (m : Memory) {a : Nat} (h : a < memorySize) : m.cells[a]? = some (m.read a) := by
  rw [read_eq_getElem m h]
  exact Vector.getElem?_eq_getElem h

theorem read_write (m : Memory) {a c : Nat} (b : UInt8) (h : c < memorySize) :
    (m.write a b).read c = if c = a then b else m.read c := by
  unfold write
  split
  · rename_i ha
    simp only [read_eq_getElem _ h, Vector.getElem_set, eq_comm]
  · rename_i ha
    rw [if_neg (by rintro rfl; exact ha h)]

/-- A block write replaces the addresses from `a` to the end of the block and no other. -/
theorem read_writeBlock (m : Memory) (bs : List UInt8) {a c : Nat} (h : c < memorySize) :
    (m.writeBlock a bs).read c =
      if a ≤ c then (bs[c - a]?).getD (m.read c) else m.read c := by
  induction bs generalizing m a with
  | nil => simp [writeBlock]
  | cons b bs ih =>
    rw [writeBlock, ih, read_write _ _ h]
    by_cases hca : c = a
    · subst hca
      rw [if_neg (by omega), if_pos rfl, if_pos (Nat.le_refl _)]
      simp
    · by_cases hac : a ≤ c
      · rw [if_pos (by omega), if_neg hca, if_pos hac,
          show c - a = (c - (a + 1)) + 1 by omega, List.getElem?_cons_succ]
      · rw [if_neg (by omega), if_neg hca, if_neg hac]

theorem read_writeBlock_inside (m : Memory) (bs : List UInt8) {a k : Nat} (hk : k < bs.length)
    (h : a + k < memorySize) : (m.writeBlock a bs).read (a + k) = bs[k] := by
  rw [read_writeBlock m bs h, if_pos (Nat.le_add_right a k), Nat.add_sub_cancel_left,
    List.getElem?_eq_getElem hk, Option.getD_some]

theorem read_writeBlock_outside (m : Memory) (bs : List UInt8) {a c : Nat} (hc : c < memorySize)
    (h : c < a ∨ a + bs.length ≤ c) : (m.writeBlock a bs).read c = m.read c := by
  rw [read_writeBlock m bs hc]
  split
  · rw [List.getElem?_eq_none (by omega), Option.getD_none]
  · rfl

theorem toNat_word (m : Memory) (a : Nat) :
    (m.word a).toNat = 256 * (m.read a).toNat + (m.read (a + 1)).toNat := by
  have h := (m.read a).toNat_lt
  have h' := (m.read (a + 1)).toNat_lt
  simp only [word, UInt16.toNat_ofNat']
  omega

end Memory

end ChipEight
