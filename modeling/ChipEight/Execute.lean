/-
What one instruction does to the state. The program counter already points behind the instruction.
An instruction that fails records an error outcome, and whatever else it has done stays done.
-/
import ChipEight.Instruction.Basic
import ChipEight.Sprite
import ChipEight.State

namespace ChipEight

open Layout

/-! ## Conditions -/

/-- The key that Vx names; beyond the last key, the last key. -/
def State.keyNamedBy (s : State) (x : Nibble) : Fin keyCount :=
  ⟨min s.v[x].toNat (keyCount - 1), by simp only [keyCount]; omega⟩

def Condition.holds (s : State) : Condition → Bool
  | byteEqual x byte => s.v[x] == byte
  | byteUnequal x byte => s.v[x] != byte
  | equal x y => s.v[x] == s.v[y]
  | unequal x y => s.v[x] != s.v[y]
  | keyDown x => s.keypad.get (s.keyNamedBy x)
  | keyUp x => !s.keypad.get (s.keyNamedBy x)

/-- Whether the condition asks for a key that the pad does not have. -/
def Condition.namesNoKey (s : State) : Condition → Bool
  | keyDown x | keyUp x => keyCount ≤ s.v[x].toNat
  | _ => false

namespace State

/-! ## Control flow -/

/-- Passes over the next instruction where the condition holds. -/
def skipWhen (s : State) (condition : Bool) : State :=
  { s with pc := if condition then s.pc + 2 else s.pc }

def jump (s : State) (target : Target) : State := { s with pc := .ofNat target }

/-- Saves the program counter and jumps, unless the stack is full. -/
def call (s : State) (target : Target) : State :=
  let (stack, overflow) := s.stack.push s.pc
  { s with stack, pc := if overflow then s.pc else .ofNat target }.report overflow .stackOverflow

/-- Goes back to the address saved last, unless there is none. -/
def ret (s : State) : State :=
  let (stack, address, underflow) := s.stack.pop
  { s with stack, pc := if underflow then s.pc else address }.report underflow .stackUnderflow

/-- The register whose value a jump by a register adds. -/
def jumpRegister (s : State) (target : Target) : Nibble :=
  if s.dialect.jumpsByVX then highDigit target else jumpOffsetRegister

def jumpBy (s : State) (target : Target) : State :=
  { s with pc := .ofNat (target + s.v[s.jumpRegister target].toNat) }

/-! ## Registers -/

def setV (s : State) (x : Nibble) (byte : UInt8) : State := { s with v := s.v.set x byte }

/-- The register that an operation reads as its first operand. -/
def firstOperand (s : State) (op : AluOp) (x y : Nibble) : Nibble :=
  if op.isShift && s.dialect.shiftsVY then y else x

/-- Stores the value in Vx and then the flag, if there is one, in VF. -/
def compute (s : State) (op : AluOp) (x y : Nibble) : State :=
  let a := s.v[s.firstOperand op x y]
  let b := s.v[y]
  let v := s.v.set x (op.value a b)
  { s with v := if (op.flag? a b).isSome then v.set flagRegister (op.flagByte a b) else v }

def random [RandomSource] (s : State) (x : Nibble) (mask : UInt8) : State :=
  { s.setV x (RandomSource.byte s.key &&& mask) with key := RandomSource.next s.key }

/-- Takes the lowest key that is down; without one, goes back to wait on the same instruction. -/
def awaitKey (s : State) (x : Nibble) : State :=
  match s.lowestKey? with
  | some k => s.setV x (.ofNat k)
  | none => { s with pc := s.pc - 2 }.report true .waitForKey

/-! ## Memory -/

/-- Points I at the glyph of the digit in Vx; a value above the last digit is out of bounds. -/
def glyph (s : State) (x : Nibble) : State :=
  let i := .ofNat (fontStart + glyphSize * s.v[x].toNat)
  { s with i }.report (16 ≤ s.v[x].toNat) .outOfBounds

/-- The three decimal digits of a byte, the hundreds first. -/
def decimalDigits (byte : UInt8) : List UInt8 := [byte / 100, byte / 10 % 10, byte % 10]

/-- Stores the decimal digits of Vx at I. -/
def storeDecimal (s : State) (x : Nibble) : State :=
  let memory := s.memory.writeBlock s.i.toNat (decimalDigits s.v[x])
  { s with memory }.report (memorySize ≤ s.i.toNat + 2) .outOfBounds

/-- Moves I behind the block of V0 to Vx, where the dialect asks for it. -/
def advanceIndex (s : State) (x : Nibble) : State :=
  { s with i := if s.dialect.advancesIndex then s.i + .ofNat x + 1 else s.i }

/-- Copies V0 to Vx into memory at I. -/
def storeBlock (s : State) (x : Nibble) : State :=
  let memory := s.memory.writeBlock s.i.toNat (s.v.toList.take (x + 1))
  ({ s with memory }.advanceIndex x).report (memorySize ≤ s.i.toNat + x) .outOfBounds

/-- Copies the memory at I into V0 to Vx. -/
def loadBlock (s : State) (x : Nibble) : State :=
  let v := .ofFn fun r => if r ≤ x then s.memory.read (s.i.toNat + r) else s.v[r]
  ({ s with v }.advanceIndex x).report (memorySize ≤ s.i.toNat + x) .outOfBounds

/-! ## Screen -/

def clear (s : State) : State := { s with screen := .blank }.report true .draw

/--
Toggles the pixels of the sprite at I, placed by Vx and Vy, and reports in VF whether one of them
was lit.
-/
def drawSprite (s : State) (x y rows : Nibble) : State :=
  let mask := spriteMask s.memory s.i.toNat rows s.v[x].toNat s.v[y].toNat
  let hit := s.screen.overlaps mask
  let drawn := { s with screen := s.screen.toggle mask }.setV flagRegister (if hit then 1 else 0)
  (drawn.report true .draw).report (memorySize < s.i.toNat + rows) .outOfBounds

/-! ## All instructions -/

def execute [RandomSource] (s : State) : Instruction → State
  | .clear => s.clear
  | .ret => s.ret
  | .machineRoutine _ => s
  | .jump target => s.jump target
  | .call target => s.call target
  | .skip condition =>
    (s.skipWhen (condition.holds s)).report (condition.namesNoKey s) .outOfBounds
  | .setByte x byte => s.setV x byte
  | .addByte x byte => s.setV x (s.v[x] + byte)
  | .compute op x y => s.compute op x y
  | .setIndex target => { s with i := .ofNat target }
  | .jumpBy target => s.jumpBy target
  | .random x mask => s.random x mask
  | .draw x y rows => s.drawSprite x y rows
  | .readDelay x => s.setV x s.delay
  | .awaitKey x => s.awaitKey x
  | .setDelay x => { s with delay := s.v[x] }
  | .setSound x => { s with sound := s.v[x] }
  | .addIndex x => { s with i := s.i + .ofNat s.v[x].toNat }
  | .glyph x => s.glyph x
  | .decimal x => s.storeDecimal x
  | .store x => s.storeBlock x
  | .load x => s.loadBlock x
  | .unknown condition =>
    (s.skipWhen (condition.any (·.holds s))).report true .unknownOpcode

/-- Executes the instruction that a word stands for. -/
def executeWord [RandomSource] (s : State) (w : Int) : State := s.execute (.ofWord w)

/-! ## What no instruction changes -/

/-- The keys, the end of the program and the dialect belong to the host. -/
theorem execute_frame [RandomSource] (s : State) (i : Instruction) :
    (s.execute i).keypad = s.keypad ∧ (s.execute i).programEnd = s.programEnd ∧
      (s.execute i).dialect = s.dialect := by
  cases i with
  | awaitKey => simp only [execute, awaitKey]; split <;> exact ⟨rfl, rfl, rfl⟩
  | _ => simp only [execute, clear, call, ret, skipWhen, jump, jumpBy, setV, compute, random, glyph,
      storeDecimal, advanceIndex, storeBlock, loadBlock, drawSprite, report, and_self]

end State

end ChipEight
