/-
The instruction set. Every word stands for an instruction; those that the set does not know decode
to `unknown`. `Instruction.ofWord` depends on the lowest sixteen bits of a word, but for the two
instructions without operands, which are recognised on the whole word.
-/
import ChipEight.Alu
import ChipEight.Instruction.Fields

namespace ChipEight

/-- What a skip depends on. -/
inductive Condition
  | byteEqual (x : Nibble) (byte : UInt8)
  | byteUnequal (x : Nibble) (byte : UInt8)
  | equal (x y : Nibble)
  | unequal (x y : Nibble)
  | keyDown (x : Nibble)
  | keyUp (x : Nibble)
deriving DecidableEq

inductive Instruction
  | clear
  | ret
  | machineRoutine (target : Target)
  | jump (target : Target)
  | call (target : Target)
  | skip (condition : Condition)
  | setByte (x : Nibble) (byte : UInt8)
  | addByte (x : Nibble) (byte : UInt8)
  | compute (op : AluOp) (x y : Nibble)
  | setIndex (target : Target)
  | jumpBy (target : Target)
  | random (x : Nibble) (mask : UInt8)
  | draw (x y rows : Nibble)
  | readDelay (x : Nibble)
  | awaitKey (x : Nibble)
  | setDelay (x : Nibble)
  | setSound (x : Nibble)
  | addIndex (x : Nibble)
  | glyph (x : Nibble)
  | decimal (x : Nibble)
  | store (x : Nibble)
  | load (x : Nibble)
  /-- A word outside the set. In a family of skips its condition is tested all the same. -/
  | unknown (condition : Option Condition)
deriving DecidableEq

namespace Instruction

/-- The instruction of the family F whose lowest byte is `byte`. -/
def ofMisc (x : Nibble) (byte : Nat) : Instruction :=
  match byte with
  | 0x07 => readDelay x
  | 0x0A => awaitKey x
  | 0x15 => setDelay x
  | 0x18 => setSound x
  | 0x1E => addIndex x
  | 0x29 => glyph x
  | 0x33 => decimal x
  | 0x55 => store x
  | 0x65 => load x
  | _ => unknown none

def ofWord (w : Int) : Instruction :=
  let f := Fields.ofWord w
  let byte := UInt8.ofNat f.nn
  match f.opcode.val with
  | 0x0 => if w = 0x00E0 then clear else if w = 0x00EE then ret else machineRoutine f.nnn
  | 0x1 => jump f.nnn
  | 0x2 => call f.nnn
  | 0x3 => skip (.byteEqual f.x byte)
  | 0x4 => skip (.byteUnequal f.x byte)
  | 0x5 => if f.n.val = 0 then skip (.equal f.x f.y) else unknown (some (.equal f.x f.y))
  | 0x6 => setByte f.x byte
  | 0x7 => addByte f.x byte
  | 0x8 =>
    match AluOp.ofDigit? f.n with
    | some op => compute op f.x f.y
    | none => unknown none
  | 0x9 => if f.n.val = 0 then skip (.unequal f.x f.y) else unknown (some (.unequal f.x f.y))
  | 0xA => setIndex f.nnn
  | 0xB => jumpBy f.nnn
  | 0xC => random f.x byte
  | 0xD => draw f.x f.y f.n
  | 0xE =>
    if f.nn.val = 0x9E then skip (.keyDown f.x)
    else if f.nn.val = 0xA1 then skip (.keyUp f.x)
    else unknown (some (.keyDown f.x))
  | _ => ofMisc f.x f.nn

/-- Whether the set knows the instruction. -/
def isKnown : Instruction → Bool
  | unknown _ => false
  | _ => true

/-- A word stands for the same instruction as its lowest sixteen bits, outside the family 0. -/
theorem ofWord_emod {w : Int} (h : (Fields.ofWord w).opcode ≠ 0) :
    ofWord (w % 65536) = ofWord w := by
  have hv : (Fields.ofWord w).opcode.val ≠ 0 := fun e => h (Fin.ext e)
  simp only [ofWord, Fields.ofWord_emod]
  split
  · contradiction
  all_goals rfl

end Instruction

end ChipEight
