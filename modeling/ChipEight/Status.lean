/-
The outcome of a step, its number and its name.
-/
namespace ChipEight

inductive Status
  | ok
  | draw
  | waitForKey
  | exit
  | unknownOpcode
  | stackOverflow
  | stackUnderflow
  | outOfBounds
deriving DecidableEq

namespace Status

/-- The number that the status register holds for an outcome. -/
def code : Status → UInt8
  | ok => 0
  | draw => 1
  | waitForKey => 2
  | exit => 3
  | unknownOpcode => 4
  | stackOverflow => 5
  | stackUnderflow => 6
  | outOfBounds => 7

instance : Coe Status UInt8 := ⟨code⟩

def all : List Status :=
  [ok, draw, waitForKey, exit, unknownOpcode, stackOverflow, stackUnderflow, outOfBounds]

/-- The outcome of a number; only 0 to 7 stand for one. -/
def ofCode? (n : Int) : Option Status := all.find? fun st => (st.code.toNat : Int) = n

/-- An error ends the program and names an instruction that had no effect. -/
def isError (st : Status) : Bool := unknownOpcode.code ≤ st.code

def name : Status → String
  | ok => "OK"
  | draw => "DRAW"
  | waitForKey => "WAIT_FOR_KEY"
  | exit => "EXIT"
  | unknownOpcode => "UNKNOWN_OPCODE"
  | stackOverflow => "STACK_OVERFLOW"
  | stackUnderflow => "STACK_UNDERFLOW"
  | outOfBounds => "OUT_OF_BOUNDS"

/-! ## Numbers and outcomes -/

theorem ofCode?_code (st : Status) : ofCode? st.code.toNat = some st := by
  cases st <;> decide

theorem ofCode?_eq_some_iff {n : Int} {st : Status} : ofCode? n = some st ↔ n = st.code.toNat := by
  constructor
  · intro h
    unfold ofCode? at h
    have same := List.find?_some h
    simp only [decide_eq_true_eq] at same
    exact same.symm
  · rintro rfl
    exact ofCode?_code st

end Status

end ChipEight
