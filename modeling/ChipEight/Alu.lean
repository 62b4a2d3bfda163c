/-
The operations on two registers: the value each one computes and the flag that some report.
-/
namespace ChipEight

/-- The operations of the words 8xyN, in the order of N. -/
inductive AluOp
  | set
  | or
  | and
  | xor
  | add
  | sub
  | shiftRight
  | subFrom
  | shiftLeft
deriving DecidableEq

namespace AluOp

/-- The operation that the last digit of a word stands for. -/
def ofDigit? : Nat → Option AluOp
  | 0x0 => some set
  | 0x1 => some or
  | 0x2 => some and
  | 0x3 => some xor
  | 0x4 => some add
  | 0x5 => some sub
  | 0x6 => some shiftRight
  | 0x7 => some subFrom
  | 0xE => some shiftLeft
  | _ => none

def isShift : AluOp → Bool
  | shiftRight | shiftLeft => true
  | _ => false

/-- What is stored in Vx, given Vx and Vy. -/
def value : AluOp → UInt8 → UInt8 → UInt8
  | set, _, y => y
  | or, x, y => x ||| y
  | and, x, y => x &&& y
  | xor, x, y => x ^^^ y
  | add, x, y => x + y
  | sub, x, y => x - y
  | shiftRight, x, _ => x >>> 1
  | subFrom, x, y => y - x
  | shiftLeft, x, _ => x <<< 1

/--
What is reported in VF: a carry out of an addition, the absence of a borrow in a subtraction, the
bit that a shift drops. The other operations report nothing and leave VF alone.
-/
def flag? : AluOp → UInt8 → UInt8 → Option Bool
  | add, x, y => some (255 < x.toNat + y.toNat)
  | sub, x, y => some (y ≤ x)
  | subFrom, x, y => some (x ≤ y)
  | shiftRight, x, _ => some (x.toNat % 2 = 1)
  | shiftLeft, x, _ => some (128 ≤ x.toNat)
  | _, _, _ => none

/-- The flag as a byte, zero where nothing is reported. -/
def flagByte (op : AluOp) (x y : UInt8) : UInt8 := if op.flag? x y = some true then 1 else 0

/-! ## Values and flags in whole numbers -/

theorem add_value (x y : UInt8) :
    x.toNat + y.toNat = 256 * (add.flagByte x y).toNat + (add.value x y).toNat := by
  have hx := x.toNat_lt
  have hy := y.toNat_lt
  by_cases h : 255 < x.toNat + y.toNat <;>
    simp only [flagByte, flag?, value, UInt8.toNat_add, h, decide_true, decide_false,
      Option.some.injEq, Bool.false_eq_true, ↓reduceIte, UInt8.reduceToNat] <;> omega

theorem sub_value (x y : UInt8) :
    x.toNat + 256 * (1 - (sub.flagByte x y).toNat) = (sub.value x y).toNat + y.toNat := by
  have hx := x.toNat_lt
  have hy := y.toNat_lt
  by_cases h : y ≤ x <;>
    simp only [flagByte, flag?, value, UInt8.toNat_sub, h, decide_true, decide_false,
      Option.some.injEq, Bool.false_eq_true, ↓reduceIte, UInt8.reduceToNat] <;>
    rw [UInt8.le_iff_toNat_le] at h <;> omega

theorem shiftRight_value (x y : UInt8) :
    x.toNat = 2 * (shiftRight.value x y).toNat + (shiftRight.flagByte x y).toNat := by
  by_cases h : x.toNat % 2 = 1 <;>
    simp [flagByte, flag?, value, Nat.shiftRight_eq_div_pow, h] <;> omega

theorem shiftLeft_value (x y : UInt8) :
    2 * x.toNat = 256 * (shiftLeft.flagByte x y).toNat + (shiftLeft.value x y).toNat := by
  have hx := x.toNat_lt
  by_cases h : 128 ≤ x.toNat <;>
    simp [flagByte, flag?, value, Nat.shiftLeft_eq, h] <;> omega

end AluOp

end ChipEight
