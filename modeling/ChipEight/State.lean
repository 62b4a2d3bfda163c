/-
The state of the machine, as it starts, is reset, takes a program and reports its last outcome.
-/
import ChipEight.CallStack
import ChipEight.Fault
import ChipEight.Memory
import ChipEight.Raster
import ChipEight.Status
import ChipEight.Threefry

namespace ChipEight

open Layout

/-- The points on which interpreters differ. -/
structure Dialect where
  /-- The shifts 8xy6 and 8xyE shift Vy into Vx, and not Vx in place. -/
  shiftsVY : Bool := false
  /-- The block transfers Fx55 and Fx65 leave I behind the last byte. -/
  advancesIndex : Bool := false
  /-- The jump Bxnn adds Vx, and not V0. -/
  jumpsByVX : Bool := false
deriving DecidableEq

@[ext] structure State where
  memory : Memory
  /-- The program counter. -/
  pc : UInt16
  v : Vector UInt8 registerCount
  /-- The index register I. -/
  i : UInt16
  stack : CallStack
  delay : UInt8
  sound : UInt8
  /-- For each key, whether it is held down. -/
  keypad : Vector Bool keyCount
  screen : Screen
  /-- The outcome of the last step, by number. -/
  status : UInt8
  /-- The first address behind the loaded program. -/
  programEnd : UInt16
  key : Threefry.Key
  dialect : Dialect
deriving DecidableEq

namespace State

/-! ## Starting -/

def initial (key : Threefry.Key) (dialect : Dialect) : State where
  memory := .initial
  pc := .ofNat programStart
  v := .replicate registerCount 0
  i := 0
  stack := .empty
  delay := 0
  sound := 0
  keypad := .replicate keyCount false
  screen := .blank
  status := Status.ok
  programEnd := .ofNat programStart
  key := key
  dialect := dialect

/-- Starts over, but for the random source, the dialect and the keys held down. -/
def reset (s : State) : State := { initial s.key s.dialect with keypad := s.keypad }

/-- Copies a program to the first program address; only memory and the end of the program change. -/
def load (s : State) (program : List UInt8) : Except Fault State :=
  if programCapacity < program.length then .error (.tooLarge program.length programCapacity)
  else .ok { s with
    memory := s.memory.writeBlock programStart program
    programEnd := .ofNat (programStart + program.length) }

/-- The state with a program in place. -/
def loaded (s : State) (program : List UInt8) : State :=
  { s with
    memory := s.memory.writeBlock programStart program
    programEnd := .ofNat (programStart + program.length) }

section

variable {s : State} {program : List UInt8}

theorem load_of_large (h : programCapacity < program.length) :
    s.load program = .error (.tooLarge program.length programCapacity) := if_pos h

theorem load_of_small (h : program.length ≤ programCapacity) : s.load program = .ok (s.loaded program) :=
  if_neg (Nat.not_lt.2 h)

/-- A program is refused for its size, or it is in place. -/
theorem load_cases (s : State) (program : List UInt8) :
    (programCapacity < program.length ∧
      s.load program = .error (.tooLarge program.length programCapacity)) ∨
    (program.length ≤ programCapacity ∧ s.load program = .ok (s.loaded program)) := by
  rcases Nat.lt_or_ge programCapacity program.length with hlarge | hsmall
  · exact .inl ⟨hlarge, load_of_large hlarge⟩
  · exact .inr ⟨hsmall, load_of_small hsmall⟩

end

/-! ## Reporting an outcome -/

/-- Records an outcome where the condition holds, and otherwise leaves the one that is recorded. -/
def report (s : State) (condition : Bool) (outcome : Status) : State :=
  { s with status := if condition then outcome.code else s.status }

/--
The recorded outcome, unless it is an error or no outcome at all. An error becomes the fault of the
instruction at the program counter.
-/
def verdict (s : State) : Except Failure Status :=
  match Status.ofCode s.status.toNat with
  | .ok .unknownOpcode =>
    .error (.fault (.unknownOpcode (s.memory.word s.pc.toNat).toNat s.pc.toNat))
  | .ok .stackOverflow => .error (.fault (.stackOverflow s.pc.toNat))
  | .ok .stackUnderflow => .error (.fault (.stackUnderflow s.pc.toNat))
  | .ok .outOfBounds => .error (.fault (.outOfBounds s.pc.toNat s.i.toNat))
  | verdict => verdict

/-! ## Keys -/

def setKey (s : State) (k : Fin keyCount) (down : Bool) : State :=
  { s with keypad := s.keypad.set k down }

/-- The lowest key that is held down. -/
def lowestKey? (s : State) : Option (Fin keyCount) :=
  (List.finRange keyCount).find? fun k => s.keypad[k]

end State

end ChipEight
