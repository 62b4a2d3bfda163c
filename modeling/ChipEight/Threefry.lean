/-
Random sources. A machine draws its bytes from any source that replaces a key and reads a byte off it;
the one that it is given is the Threefry-2x32 block function of twenty rounds, used as a splittable
generator. The children of a key are the blocks of the counters 0, 1, and so on; a drawn byte replaces
the key by its child 0 and is read off a descendant of child 1.
-/
namespace ChipEight

namespace Threefry

/-- The key of a block function, and with it the state of the random source. -/
structure Key where
  high : UInt32
  low : UInt32
deriving DecidableEq

/-! ## The block function -/

def rotateLeft (x amount : UInt32) : UInt32 := x <<< amount ||| x >>> (32 - amount)

/-- One round: add the second word to the first, then rotate the second and combine it. -/
def mix (x : UInt32 × UInt32) (amount : UInt32) : UInt32 × UInt32 :=
  let sum := x.1 + x.2
  (sum, rotateLeft x.2 amount ^^^ sum)

/-- Adds key words between groups of rounds. -/
def inject (x : UInt32 × UInt32) (a b : UInt32) : UInt32 × UInt32 := (x.1 + a, x.2 + b)

/-- Rotation amounts of the groups of four rounds, for the first group and every second one. -/
def oddGroup : List UInt32 := [13, 15, 26, 6]

/-- Rotation amounts of the groups of four rounds in between. -/
def evenGroup : List UInt32 := [17, 29, 16, 24]

/-- The third key word is the exclusive or of the other two and this constant. -/
def parity : UInt32 := 0x1BD11BDA

/-- The block of a counter under the key `k`. -/
def block (k : Key) (counter : UInt32 × UInt32) : UInt32 × UInt32 :=
  let third := k.high ^^^ k.low ^^^ parity
  let x := inject counter k.high k.low
  let x := inject (oddGroup.foldl mix x) k.low (third + 1)
  let x := inject (evenGroup.foldl mix x) third (k.high + 2)
  let x := inject (oddGroup.foldl mix x) k.high (k.low + 3)
  let x := inject (evenGroup.foldl mix x) k.low (third + 4)
  inject (oddGroup.foldl mix x) third (k.high + 5)

/-! ## Keys and bytes -/

namespace Key

/-- The key of a seed in the signed 64-bit range: its lower half. Any other seed has none. -/
def ofSeed? (seed : Int) : Option Key :=
  if -0x8000000000000000 ≤ seed ∧ seed < 0x8000000000000000 then some ⟨0, .ofInt seed⟩ else none

def child (k : Key) (index : UInt32) : Key :=
  let b := block k (0, index)
  ⟨b.1, b.2⟩

/-- The key after a byte has been drawn. -/
def next (k : Key) : Key := k.child 0

/-- The byte that is drawn from `k`. -/
def byte (k : Key) : UInt8 :=
  let b := block ((k.child 1).child 1) (0, 0)
  (b.1 ^^^ b.2).toUInt8

end Key

/-! ## The published answers for the block function -/

example : block ⟨0, 0⟩ (0, 0) = (0x6B200159, 0x99BA4EFE) := by decide +kernel

example : block ⟨0x13198A2E, 0x03707344⟩ (0x243F6A88, 0x85A308D3) = (0xC4923A9C, 0x483DF7A0) := by
  decide +kernel

end Threefry

/-! ## Random sources -/

/-- What a machine draws its random bytes from. -/
class RandomSource where
  /-- The key after a byte has been drawn. -/
  next : Threefry.Key → Threefry.Key
  /-- The byte that is drawn from a key. -/
  byte : Threefry.Key → UInt8

instance : RandomSource := ⟨Threefry.Key.next, Threefry.Key.byte⟩

end ChipEight
