/-
The fields of an instruction word. A word is any integer, of which the fields see the lowest sixteen
bits of its two's complement, that is, its residue modulo 65536.
-/
namespace ChipEight

/-- A field of four bits, which names a register, an operation or a number of rows. -/
abbrev Nibble : Type := Fin 16

/-- A field of twelve bits, which names an address. -/
abbrev Target : Type := Fin 4096

/-- The highest digit of a target, which is the field `x` of its word. -/
def highDigit (target : Target) : Nibble := ⟨target.val / 256, by omega⟩

theorem toNat_emod_lt {m : Nat} (hm : 0 < m) (w : Int) : (w % m).toNat < m := by
  have h0 := Int.emod_nonneg w (b := m) (by omega)
  have h1 := Int.emod_lt_of_pos w (b := m) (by omega)
  omega

/-- The residue of `w` modulo `m`, between 0 and `m - 1` also for a negative `w`. -/
def residue (m : Nat) (hm : 0 < m) (w : Int) : Fin m := ⟨(w % m).toNat, toNat_emod_lt hm w⟩

structure Fields where
  /-- The highest four bits, which select the family of the instruction. -/
  opcode : Nibble
  x : Nibble
  y : Nibble
  n : Nibble
  nn : Fin 256
  nnn : Target
deriving DecidableEq

namespace Fields

def ofWord (w : Int) : Fields where
  opcode := residue 16 (by decide) (w / 4096)
  x := residue 16 (by decide) (w / 256)
  y := residue 16 (by decide) (w / 16)
  n := residue 16 (by decide) w
  nn := residue 256 (by decide) w
  nnn := residue 4096 (by decide) w

/-! ## Values of the fields -/

theorem val_residue {m : Nat} (hm : 0 < m) (w : Int) : ((residue m hm w).val : Int) = w % m :=
  Int.toNat_of_nonneg (Int.emod_nonneg w (by omega))

theorem residue_congr {m : Nat} (hm : 0 < m) {v w : Int} (h : v % m = w % m) :
    residue m hm v = residue m hm w := by
  simp only [residue, h]

/-- The fields depend on the lowest sixteen bits alone. -/
theorem ofWord_emod (w : Int) : ofWord (w % 65536) = ofWord w := by
  simp only [ofWord, Fields.mk.injEq]
  refine ⟨?_, ?_, ?_, ?_, ?_, ?_⟩ <;> exact residue_congr _ (by omega)

end Fields

end ChipEight
