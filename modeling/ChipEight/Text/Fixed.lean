/-
Decimal text of a double with a fixed number of places. The double stands for an exact binary
fraction, and it is that fraction which is rounded, a half going to the even neighbour.
-/
namespace ChipEight.Text

/-- The whole number nearest to `num / den`, the even one of two that are equally near. -/
def divNearest (num den : Nat) : Nat :=
  let q := num / den
  let r := num % den
  if 2 * r < den ∨ (2 * r = den ∧ q % 2 = 0) then q else q + 1

/-- The parts of a double: its sign, the biased exponent and the bits of the fraction. -/
structure DoubleParts where
  negative : Bool
  exponent : Nat
  fraction : Nat

def DoubleParts.ofFloat (x : Float) : DoubleParts :=
  let bits := x.toBits.toNat
  { negative := bits.testBit 63
    exponent := bits / Nat.pow 2 52 % Nat.pow 2 11
    fraction := bits % Nat.pow 2 52 }

namespace DoubleParts

/-- The exponent that marks infinities, whose fraction is zero, and values that are no number. -/
def specialExponent : Nat := Nat.pow 2 11 - 1

/-- The size of a finite double in units of `2 ^ -1074`, of which every double is a multiple. -/
def magnitude (d : DoubleParts) : Nat :=
  if d.exponent = 0 then d.fraction else (Nat.pow 2 52 + d.fraction) * Nat.pow 2 (d.exponent - 1)

/-- The size of a finite double in units of `10 ^ -places`, rounded. -/
def scaled (d : DoubleParts) (places : Nat) : Nat :=
  divNearest (d.magnitude * Nat.pow 10 places) (Nat.pow 2 1074)

/-- The digits of the size, those after the point filled to `places` with zeros. -/
def digits (d : DoubleParts) (places : Nat) : List Char :=
  let n := d.scaled places
  let unit := Nat.pow 10 places
  Nat.toDigits 10 (n / unit) ++
    (if places = 0 then [] else '.' :: List.leftpad places '0' (Nat.toDigits 10 (n % unit)))

end DoubleParts

/-- The text of `x` with `places` decimal places. A negative zero keeps its sign. -/
def fixed (places : Nat) (x : Float) : String :=
  let d := DoubleParts.ofFloat x
  if d.exponent = DoubleParts.specialExponent ∧ d.fraction ≠ 0 then "nan" else
    let size :=
      if d.exponent = DoubleParts.specialExponent then ['i', 'n', 'f'] else d.digits places
    String.ofList (if d.negative then '-' :: size else size)

end ChipEight.Text
